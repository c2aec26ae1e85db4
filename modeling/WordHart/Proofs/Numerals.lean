import Mathlib
import WordHart.Register

namespace WordHart

namespace Numeral

/-- The number that digits denote in a base, the highest digit standing first. -/
def valueOf (base : Nat) (chars : List Char) : Nat :=
  chars.foldl (fun total c => base * total + (hexDigit? c).getD 0) 0

theorem hexDigit?_digitChar {n : Nat} (small : n < 16) : hexDigit? n.digitChar = some n := by
  interval_cases n <;> rfl

theorem valueOf_append_singleton (base : Nat) (front : List Char) (c : Char) :
    valueOf base (front ++ [c]) = base * valueOf base front + (hexDigit? c).getD 0 := by
  simp only [valueOf, List.foldl_append, List.foldl_cons, List.foldl_nil]

theorem valueOf_zeros_append (base count : Nat) (chars : List Char) :
    valueOf base (List.replicate count '0' ++ chars) = valueOf base chars := by
  induction count with
  | zero => rfl
  | succ count inductionHypothesis =>
      have zero : base * 0 + (hexDigit? '0').getD 0 = 0 := rfl
      rw [List.replicate_succ, List.cons_append]
      simpa only [valueOf, List.foldl_cons, zero] using inductionHypothesis

variable {base : Nat}

theorem valueOf_toDigits (several : 1 < base) (known : base ≤ 16) (n : Nat) :
    valueOf base (Nat.toDigits base n) = n := by
  induction n using Nat.strongRecOn with
  | ind n inductionHypothesis =>
      rw [Nat.toDigits_eq_if several]
      split
      case isTrue small =>
        have digit := hexDigit?_digitChar (Nat.lt_of_lt_of_le small known)
        rw [valueOf, List.foldl_cons, List.foldl_nil, digit]
        exact Nat.zero_add n
      case isFalse large =>
        have below : n % base < base := Nat.mod_lt n (by omega)
        have digit := hexDigit?_digitChar (Nat.lt_of_lt_of_le below known)
        have shorter : n / base < n := Nat.div_lt_self (by omega) several
        rw [valueOf_append_singleton, inductionHypothesis _ shorter, digit]
        exact Nat.div_add_mod n base

theorem isSome_hexDigit?_of_mem_toDigits (several : 1 < base) (known : base ≤ 16) {n : Nat}
    {c : Char} (member : c ∈ Nat.toDigits base n) : (hexDigit? c).isSome := by
  induction n using Nat.strongRecOn with
  | ind n inductionHypothesis =>
      rw [Nat.toDigits_eq_if several] at member
      split at member
      case isTrue small =>
        rw [List.mem_singleton] at member
        rw [member, hexDigit?_digitChar (Nat.lt_of_lt_of_le small known)]
        rfl
      case isFalse large =>
        have below : n % base < base := Nat.mod_lt n (by omega)
        have shorter : n / base < n := Nat.div_lt_self (by omega) several
        rcases List.mem_append.mp member with front | last
        · exact inductionHypothesis _ shorter front
        · rw [List.mem_singleton] at last
          rw [last, hexDigit?_digitChar (Nat.lt_of_lt_of_le below known)]
          rfl

theorem valueOf_digits (several : 1 < base) (known : base ≤ 16) (width n : Nat) :
    valueOf base (digits base width n) = n := by
  rw [digits, List.leftpad, valueOf_zeros_append, valueOf_toDigits several known]

theorem isSome_hexDigit?_of_mem_digits (several : 1 < base) (known : base ≤ 16) {width n : Nat}
    {c : Char} (member : c ∈ digits base width n) : (hexDigit? c).isSome := by
  rw [digits, List.leftpad, List.mem_append, List.mem_replicate] at member
  rcases member with ⟨-, rfl⟩ | digit
  · rfl
  · exact isSome_hexDigit?_of_mem_toDigits several known digit

/-- Decimal digits, the highest first, and the natural number that they denote. -/
def IsDecimal (chars : List Char) (n : Nat) : Prop :=
  ∃ values : List Nat, chars = values.map Nat.digitChar ∧ (∀ value ∈ values, value < 10) ∧
    values ≠ [] ∧ n = Nat.ofDigits 10 values.reverse

theorem ofDigits_reverse_cons (base value : Nat) (values : List Nat) :
    Nat.ofDigits base (value :: values).reverse =
      Nat.ofDigits base values.reverse + base ^ values.length * value := by
  rw [List.reverse_cons, Nat.ofDigits_append, Nat.ofDigits_singleton, List.length_reverse]

theorem decimalDigit?_eq_some_iff {c : Char} {value : Nat} :
    decimalDigit? c = some value ↔ value < 10 ∧ c = value.digitChar := by
  constructor
  · intro read
    unfold decimalDigit? at read
    split at read
    case isTrue between =>
      obtain ⟨low, high⟩ := between
      change 48 ≤ c.toNat at low
      change c.toNat ≤ 57 at high
      cases read
      change c.toNat - 48 < 10 ∧ c = (c.toNat - 48).digitChar
      have small : c.toNat - 48 < 10 := by omega
      refine ⟨small, Char.toNat_inj.mp ?_⟩
      rw [Nat.toNat_digitChar_of_lt_ten small]
      omega
    case isFalse => contradiction
  · intro digit
    obtain ⟨small, rfl⟩ := digit
    interval_cases value <;> rfl

theorem foldlM_decimalDigit?_eq_some_iff {chars : List Char} {total n : Nat} :
    chars.foldlM (fun total digit => (10 * total + ·) <$> decimalDigit? digit) total = some n ↔
      ∃ values : List Nat, chars = values.map Nat.digitChar ∧ (∀ value ∈ values, value < 10) ∧
        n = total * 10 ^ values.length + Nat.ofDigits 10 values.reverse := by
  induction chars generalizing total with
  | nil =>
      constructor
      · intro read
        cases read
        exact ⟨[], rfl, List.forall_mem_nil _, by simp⟩
      · intro denotes
        obtain ⟨values, spelled, -, number⟩ := denotes
        cases List.map_eq_nil_iff.mp spelled.symm
        simp [number]
  | cons c chars inductionHypothesis =>
      rw [List.foldlM_cons, Option.bind_eq_bind, Option.bind_eq_some_iff]
      constructor
      · intro read
        obtain ⟨next, taken, read⟩ := read
        obtain ⟨value, digit, rfl⟩ := Option.map_eq_some_iff.mp taken
        obtain ⟨small, rfl⟩ := decimalDigit?_eq_some_iff.mp digit
        obtain ⟨values, rfl, below, number⟩ := inductionHypothesis.mp read
        refine ⟨value :: values, rfl, List.forall_mem_cons.mpr ⟨small, below⟩, ?_⟩
        rw [number, ofDigits_reverse_cons, List.length_cons]
        ring
      · intro denotes
        obtain ⟨values, spelled, below, number⟩ := denotes
        obtain ⟨value, values, rfl, rfl, rfl⟩ := List.map_eq_cons_iff.mp spelled.symm
        obtain ⟨small, below⟩ := List.forall_mem_cons.mp below
        refine ⟨10 * total + value, ?_, inductionHypothesis.mpr ⟨values, rfl, below, ?_⟩⟩
        · rw [decimalDigit?_eq_some_iff.mpr ⟨small, rfl⟩]
          rfl
        · rw [number, ofDigits_reverse_cons, List.length_cons]
          ring

theorem natural?_eq_some_iff {chars : List Char} {n : Nat} :
    natural? chars = some n ↔ IsDecimal chars n := by
  cases chars with
  | nil => simp [natural?, IsDecimal]
  | cons c rest =>
      -- The first digit is read like the others, behind a total of zero.
      have first : natural? (c :: rest) = (c :: rest).foldlM
          (fun total digit => (10 * total + ·) <$> decimalDigit? digit) 0 := by
        rw [natural?, List.foldlM_cons]
        cases decimalDigit? c <;> simp
      rw [first, foldlM_decimalDigit?_eq_some_iff]
      constructor
      · intro denotes
        obtain ⟨values, spelled, below, number⟩ := denotes
        have nonempty : values ≠ [] := by
          intro empty
          subst empty
          contradiction
        exact ⟨values, spelled, below, nonempty, by simpa using number⟩
      · intro denotes
        obtain ⟨values, spelled, below, -, number⟩ := denotes
        exact ⟨values, spelled, below, by simpa using number⟩

theorem toList_decimal (n : Nat) : (decimal n).toList = Nat.toDigits 10 n := String.toList_ofList

theorem toList_hex (width n : Nat) : (hex width n).toList = '0' :: 'x' :: digits 16 width n := by
  have marker : "0x".toList = ['0', 'x'] := rfl
  rw [hex, String.toList_append, marker, String.toList_ofList]
  rfl

theorem decimal_inj {m n : Nat} (same : decimal m = decimal n) : m = n := by
  have digits := congrArg (fun text => valueOf 10 text.toList) same
  simpa only [toList_decimal, valueOf_toDigits (by decide : 1 < 10) (by decide)] using digits

theorem hex_inj {width m n : Nat} (same : hex width m = hex width n) : m = n := by
  have chars := congrArg String.toList same
  rw [toList_hex, toList_hex, List.cons_inj_right, List.cons_inj_right] at chars
  rw [← valueOf_digits (by decide) (by decide : 16 ≤ 16) width m, chars,
    valueOf_digits (by decide) (by decide)]

theorem digitChar_inj {m n : Nat} (left : m < 16) (right : n < 16)
    (same : m.digitChar = n.digitChar) : m = n := by
  have digits := congrArg hexDigit? same
  rw [hexDigit?_digitChar left, hexDigit?_digitChar right] at digits
  exact Option.some.inj digits

theorem digits_byte (byte : UInt8) :
    digits 16 2 byte.toNat = [(byte.toNat / 16).digitChar, (byte.toNat % 16).digitChar] := by
  have bounded := byte.toNat_lt
  have high : byte.toNat / 16 < 16 := by omega
  rw [digits, Nat.toDigits_eq_if (by decide)]
  split
  case isTrue small =>
    rw [Nat.div_eq_of_lt small, Nat.mod_eq_of_lt small]
    rfl
  case isFalse =>
    rw [Nat.toDigits_eq_if (by decide), if_pos high]
    rfl

theorem toList_hexBytes (data : List UInt8) :
    (hexBytes data).toList = data.flatMap fun byte =>
      [(byte.toNat / 16).digitChar, (byte.toNat % 16).digitChar] := by
  rw [hexBytes, String.toList_ofList]
  exact congrArg (data.flatMap ·) (funext digits_byte)

theorem length_hexBytes (data : List UInt8) : (hexBytes data).length = 2 * data.length := by
  rw [← String.length_toList, toList_hexBytes, List.length_flatMap]
  simp [Nat.mul_comm]

theorem hexBytes_inj {left right : List UInt8} (same : hexBytes left = hexBytes right) :
    left = right := by
  have chars := congrArg String.toList same
  rw [toList_hexBytes, toList_hexBytes] at chars
  clear same
  induction left generalizing right with
  | nil =>
      cases right with
      | nil => rfl
      | cons byte right => contradiction
  | cons byte left inductionHypothesis =>
      cases right with
      | nil => contradiction
      | cons other right =>
          have bounded := byte.toNat_lt
          have otherBounded := other.toNat_lt
          rw [List.flatMap_cons, List.flatMap_cons] at chars
          obtain ⟨digits, later⟩ := List.append_inj chars rfl
          obtain ⟨highSame, lowSame⟩ := List.cons_eq_cons.mp digits
          have high := digitChar_inj (by omega) (by omega) highSame
          have low := digitChar_inj (by omega) (by omega) (List.cons_eq_cons.mp lowSame).1
          have equal : byte = other := UInt8.toNat_inj.mp (by omega)
          rw [equal, inductionHypothesis later]

theorem mem_toList_decimal {n : Nat} {c : Char} (member : c ∈ (decimal n).toList) :
    (hexDigit? c).isSome := by
  rw [toList_decimal] at member
  exact isSome_hexDigit?_of_mem_toDigits (by decide) (by decide) member

theorem mem_toList_hex {width n : Nat} {c : Char} (member : c ∈ (hex width n).toList) :
    c = 'x' ∨ (hexDigit? c).isSome := by
  rw [toList_hex, List.mem_cons, List.mem_cons] at member
  rcases member with rfl | marker | digit
  · exact .inr rfl
  · exact .inl marker
  · exact .inr (isSome_hexDigit?_of_mem_digits (by decide) (by decide) digit)

theorem mem_toList_signed {n : Int} {c : Char} (member : c ∈ (signed n).toList) :
    c = '-' ∨ (hexDigit? c).isSome := by
  cases n with
  | ofNat n => exact .inr (mem_toList_decimal member)
  | negSucc n =>
      rw [signed, String.toList_append, List.mem_append] at member
      rcases member with sign | digit
      · exact .inl (List.mem_singleton.mp sign)
      · exact .inr (mem_toList_decimal digit)

theorem decimal_ne_signed_negSucc (m n : Nat) : decimal m ≠ signed (.negSucc n) := by
  intro same
  have sign : '-' ∈ (decimal m).toList := by
    rw [same, signed, String.toList_append]
    exact List.mem_append_left _ (List.mem_singleton.mpr rfl)
  have digit := mem_toList_decimal sign
  exact absurd digit (by decide)

theorem signed_inj {m n : Int} (same : signed m = signed n) : m = n := by
  cases m with
  | ofNat m =>
      cases n with
      | ofNat n => exact congrArg Int.ofNat (decimal_inj same)
      | negSucc n => exact absurd same (decimal_ne_signed_negSucc m n)
  | negSucc m =>
      cases n with
      | ofNat n => exact absurd same.symm (decimal_ne_signed_negSucc n m)
      | negSucc n =>
          have chars := congrArg String.toList same
          rw [signed, signed, String.toList_append, String.toList_append] at chars
          have digits := decimal_inj (String.toList_inj.mp (List.append_cancel_left chars))
          exact congrArg Int.negSucc (Nat.succ.inj digits)

end Numeral

namespace Register

theorem toList_text (register : Register) :
    register.text.toList = 'x' :: Nat.toDigits 10 register.index.toNat := by
  rw [text, String.toList_append, Numeral.toList_decimal]
  rfl

theorem text_inj {left right : Register} (same : left.text = right.text) : left = right := by
  have chars := congrArg String.toList same
  rw [text, text, String.toList_append, String.toList_append] at chars
  have digits := Numeral.decimal_inj (String.toList_inj.mp (List.append_cancel_left chars))
  cases left
  cases right
  exact congrArg Register.mk (BitVec.eq_of_toNat_eq digits)

theorem mem_toList_text {register : Register} {c : Char} (member : c ∈ register.text.toList) :
    c = 'x' ∨ (Numeral.hexDigit? c).isSome := by
  rw [toList_text, List.mem_cons, ← Numeral.toList_decimal] at member
  exact member.imp_right Numeral.mem_toList_decimal

end Register

end WordHart
