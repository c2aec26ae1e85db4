import WordHart.Text.Utf8

namespace WordHart.Utf8

/-- The bytes `tail` end the character that has begun, and it is `c`. -/
inductive Begun.Closes : Begun → List UInt8 → Char → Prop
  | last {low high taken bits : Nat} {byte : UInt8}
      (within : low ≤ byte.toNat ∧ byte.toNat ≤ high) :
      Closes ⟨0, low, high, taken, bits⟩ [byte] (Char.ofNat (64 * bits + (byte.toNat - 0x80)))
  | next {further low high taken bits : Nat} {byte : UInt8} {tail : List UInt8} {c : Char}
      (within : low ≤ byte.toNat ∧ byte.toNat ≤ high)
      (closed : Closes ⟨further, 0x80, 0xbf, taken + 1, 64 * bits + (byte.toNat - 0x80)⟩ tail c) :
      Closes ⟨further + 1, low, high, taken, bits⟩ (byte :: tail) c

namespace Begun.Closes

theorem last_of_eq {low high taken bits : Nat} {byte : UInt8} {c : Char}
    (within : low ≤ byte.toNat ∧ byte.toNat ≤ high)
    (value : 64 * bits + (byte.toNat - 0x80) = c.toNat) :
    Closes ⟨0, low, high, taken, bits⟩ [byte] c := by
  have closed : Closes ⟨0, low, high, taken, bits⟩ [byte] _ := .last within
  rwa [value, Char.ofNat_toNat] at closed

theorem exists_last {low high taken bits : Nat} {tail : List UInt8} {c : Char}
    (closed : Closes ⟨0, low, high, taken, bits⟩ tail c) :
    ∃ (byte : UInt8) (n : Nat), tail = [byte] ∧ (low ≤ byte.toNat ∧ byte.toNat ≤ high) ∧
      n = 64 * bits + (byte.toNat - 0x80) ∧ c = Char.ofNat n := by
  cases closed with
  | last within => exact ⟨_, _, rfl, within, rfl, rfl⟩

theorem exists_next {further low high taken bits : Nat} {tail : List UInt8} {c : Char}
    (closed : Closes ⟨further + 1, low, high, taken, bits⟩ tail c) :
    ∃ (byte : UInt8) (n : Nat) (others : List UInt8), tail = byte :: others ∧
      (low ≤ byte.toNat ∧ byte.toNat ≤ high) ∧ n = 64 * bits + (byte.toNat - 0x80) ∧
      Closes ⟨further, 0x80, 0xbf, taken + 1, n⟩ others c := by
  cases closed with
  | next within closed => exact ⟨_, _, _, rfl, within, rfl, closed⟩

end Begun.Closes

theorem decodeFrom_of_closes {begun : Begun} {tail : List UInt8} {c : Char}
    (closed : begun.Closes tail c) (index : Nat) (rest : List UInt8) :
    ∃ after, decodeFrom index (some begun) (tail ++ rest) =
      (c :: ·) <$> decodeFrom after none rest := by
  induction closed with
  | @last low high taken bits byte within =>
      refine ⟨index + taken + 1, ?_⟩
      simp only [List.cons_append, List.nil_append, decodeFrom, if_pos within]
  | next within _ inductionHypothesis =>
      obtain ⟨after, remaining⟩ := inductionHypothesis
      refine ⟨after, ?_⟩
      simp only [List.cons_append, decodeFrom, if_pos within, remaining]

theorem closes_of_decodeFrom {index : Nat} {begun : Begun} {data : List UInt8} {chars : List Char}
    (decoded : decodeFrom index (some begun) data = .ok chars) :
    ∃ tail c rest others after, begun.Closes tail c ∧ data = tail ++ rest ∧ chars = c :: others ∧
      decodeFrom after none rest = .ok others := by
  induction data generalizing begun with
  | nil => simp [decodeFrom] at decoded
  | cons byte data inductionHypothesis =>
      obtain ⟨further, low, high, taken, bits⟩ := begun
      simp only [decodeFrom] at decoded
      split at decoded
      case isFalse => contradiction
      case isTrue within =>
      cases further with
      | zero =>
          simp only at decoded
          cases rest : decodeFrom (index + taken + 1) none data with
          | error fault =>
              rw [rest] at decoded
              contradiction
          | ok others =>
              rw [rest] at decoded
              cases decoded
              exact ⟨[byte], _, data, others, _, .last within, rfl, rfl, rest⟩
      | succ further =>
          obtain ⟨tail, c, rest, others, after, closed, rfl, rfl, remaining⟩ :=
            inductionHypothesis decoded
          exact ⟨byte :: tail, c, rest, others, after, .next within closed, rfl, rfl, remaining⟩

theorem ofLead?_two {lead : Nat} (lower : 0xc2 ≤ lead) (upper : lead < 0xe0) :
    Begun.ofLead? lead = some ⟨0, 0x80, 0xbf, 1, lead - 0xc0⟩ := by
  rw [Begun.ofLead?, if_neg (by omega), if_pos upper]

theorem ofLead?_three {lead : Nat} (lower : 0xe0 ≤ lead) (upper : lead < 0xf0) :
    ∃ low high, Begun.ofLead? lead = some ⟨1, low, high, 1, lead - 0xe0⟩ ∧
      (lead = 0xe0 ∧ low = 0xa0 ∨ lead ≠ 0xe0 ∧ low = 0x80) ∧
      (lead = 0xed ∧ high = 0x9f ∨ lead ≠ 0xed ∧ high = 0xbf) := by
  rw [Begun.ofLead?, if_neg (by omega), if_neg (by omega)]
  by_cases first : lead = 0xe0
  · exact ⟨0xa0, 0xbf, by simp [first], by omega, by omega⟩
  · by_cases surrogate : lead = 0xed
    · exact ⟨0x80, 0x9f, by simp [surrogate], by omega, by omega⟩
    · exact ⟨0x80, 0xbf, by simp [first, surrogate, upper], by omega, by omega⟩

theorem ofLead?_four {lead : Nat} (lower : 0xf0 ≤ lead) (upper : lead < 0xf5) :
    ∃ low high, Begun.ofLead? lead = some ⟨2, low, high, 1, lead - 0xf0⟩ ∧
      (lead = 0xf0 ∧ low = 0x90 ∨ lead ≠ 0xf0 ∧ low = 0x80) ∧
      (lead = 0xf4 ∧ high = 0x8f ∨ lead ≠ 0xf4 ∧ high = 0xbf) := by
  rw [Begun.ofLead?, if_neg (by omega), if_neg (by omega), if_neg (by omega), if_neg (by omega),
    if_neg (by omega)]
  by_cases first : lead = 0xf0
  · exact ⟨0x90, 0xbf, by simp [first], by omega, by omega⟩
  · by_cases final : lead = 0xf4
    · exact ⟨0x80, 0x8f, by simp [final], by omega, by omega⟩
    · have inner : lead < 0xf4 := by omega
      exact ⟨0x80, 0xbf, by simp [first, inner], by omega, by omega⟩

/-- Only these bytes begin a character above the ASCII range. -/
theorem bounds_of_ofLead? {lead : Nat} {begun : Begun}
    (begins : Begun.ofLead? lead = some begun) : 0xc2 ≤ lead ∧ lead < 0xf5 := by
  unfold Begun.ofLead? at begins
  constructor
  · refine Nat.le_of_not_lt fun small => ?_
    simp [small] at begins
  · refine Nat.lt_of_not_le fun large => ?_
    simp [show ¬ lead < 0xc2 by omega, show ¬ lead < 0xe0 by omega, show lead ≠ 0xe0 by omega,
      show lead ≠ 0xed by omega, show ¬ lead < 0xf0 by omega, show lead ≠ 0xf0 by omega,
      show ¬ lead < 0xf4 by omega, show lead ≠ 0xf4 by omega] at begins

theorem utf8EncodeChar_one {c : Char} (upper : c.toNat ≤ 0x7f) :
    String.utf8EncodeChar c = [UInt8.ofNat c.toNat] := by
  unfold Char.toNat at upper ⊢
  simp only [String.utf8EncodeChar, if_pos upper]

theorem utf8EncodeChar_two {c : Char} (lower : 0x7f < c.toNat) (upper : c.toNat ≤ 0x7ff) :
    String.utf8EncodeChar c =
      [UInt8.ofNat (c.toNat / 64 + 0xc0), UInt8.ofNat (c.toNat % 64 + 0x80)] := by
  unfold Char.toNat at lower upper ⊢
  have lead : c.val.toNat / 64 % 32 = c.val.toNat / 64 := by omega
  simp only [String.utf8EncodeChar, if_neg (Nat.not_le_of_lt lower), if_pos upper, lead]

theorem utf8EncodeChar_three {c : Char} (lower : 0x7ff < c.toNat) (upper : c.toNat ≤ 0xffff) :
    String.utf8EncodeChar c =
      [UInt8.ofNat (c.toNat / 4096 + 0xe0), UInt8.ofNat (c.toNat / 64 % 64 + 0x80),
        UInt8.ofNat (c.toNat % 64 + 0x80)] := by
  unfold Char.toNat at lower upper ⊢
  have lead : c.val.toNat / 4096 % 16 = c.val.toNat / 4096 := by omega
  simp only [String.utf8EncodeChar, if_neg (show ¬ c.val.toNat ≤ 0x7f by omega),
    if_neg (Nat.not_le_of_lt lower), if_pos upper, lead]

theorem utf8EncodeChar_four {c : Char} (lower : 0xffff < c.toNat) :
    String.utf8EncodeChar c =
      [UInt8.ofNat (c.toNat / 262144 + 0xf0), UInt8.ofNat (c.toNat / 4096 % 64 + 0x80),
        UInt8.ofNat (c.toNat / 64 % 64 + 0x80), UInt8.ofNat (c.toNat % 64 + 0x80)] := by
  have scalar : c.val.toNat < 0xd800 ∨ 0xdfff < c.val.toNat ∧ c.val.toNat < 0x110000 := c.valid
  unfold Char.toNat at lower ⊢
  have lead : c.val.toNat / 262144 % 8 = c.val.toNat / 262144 := by omega
  simp only [String.utf8EncodeChar, if_neg (show ¬ c.val.toNat ≤ 0x7f by omega),
    if_neg (show ¬ c.val.toNat ≤ 0x7ff by omega), if_neg (Nat.not_le_of_lt lower), lead]

theorem toNat_ofNat_add {digit base : Nat} (small : digit + base < 256) :
    (UInt8.ofNat (digit + base)).toNat = digit + base := UInt8.toNat_ofNat_of_lt' small

theorem ofNat_eq_of_eq_toNat (byte : UInt8) {n : Nat} (equal : n = byte.toNat) :
    UInt8.ofNat n = byte := by
  rw [equal]
  exact UInt8.ofNat_toNat

theorem toNat_ofNat_of_isValidChar {n : Nat} (valid : n.isValidChar) :
    (Char.ofNat n).toNat = n := by
  rw [Char.ofNat, dif_pos valid]
  rfl

theorem closes_of_utf8EncodeChar {c : Char} (large : 0x7f < c.toNat) :
    ∃ lead tail begun, String.utf8EncodeChar c = lead :: tail ∧
      Begun.ofLead? lead.toNat = some begun ∧ begun.Closes tail c := by
  have scalar : c.toNat < 0xd800 ∨ 0xdfff < c.toNat ∧ c.toNat < 0x110000 := c.valid
  have last := toNat_ofNat_add (show c.toNat % 64 + 0x80 < 256 by omega)
  have third := toNat_ofNat_add (show c.toNat / 64 % 64 + 0x80 < 256 by omega)
  have second := toNat_ofNat_add (show c.toNat / 4096 % 64 + 0x80 < 256 by omega)
  by_cases two : c.toNat ≤ 0x7ff
  · have lead := toNat_ofNat_add (show c.toNat / 64 + 0xc0 < 256 by omega)
    refine ⟨_, _, _, utf8EncodeChar_two large two, ofLead?_two ?_ ?_, .last_of_eq ?_ ?_⟩
    all_goals omega
  by_cases three : c.toNat ≤ 0xffff
  · have lead := toNat_ofNat_add (show c.toNat / 4096 + 0xe0 < 256 by omega)
    obtain ⟨low, high, begins, lowest, highest⟩ :=
      ofLead?_three (show 0xe0 ≤ c.toNat / 4096 + 0xe0 by omega) (by omega)
    rw [← lead] at begins
    refine ⟨_, _, _, utf8EncodeChar_three (by omega) three, begins, .next ?_ (.last_of_eq ?_ ?_)⟩
    all_goals omega
  · have lead := toNat_ofNat_add (show c.toNat / 262144 + 0xf0 < 256 by omega)
    obtain ⟨low, high, begins, lowest, highest⟩ :=
      ofLead?_four (show 0xf0 ≤ c.toNat / 262144 + 0xf0 by omega) (by omega)
    rw [← lead] at begins
    refine ⟨_, _, _, utf8EncodeChar_four (by omega), begins,
      .next ?_ (.next ?_ (.last_of_eq ?_ ?_))⟩
    all_goals omega

/-- A character that the reader puts together is written as the bytes that it was read from. -/
theorem utf8EncodeChar_of_closes {lead : UInt8} {begun : Begun} {tail : List UInt8} {c : Char}
    (begins : Begun.ofLead? lead.toNat = some begun) (closed : begun.Closes tail c) :
    String.utf8EncodeChar c = lead :: tail := by
  obtain ⟨lower, upper⟩ := bounds_of_ofLead? begins
  by_cases two : lead.toNat < 0xe0
  · rw [ofLead?_two lower two] at begins
    cases begins
    obtain ⟨last, n, rfl, within, number, rfl⟩ := closed.exists_last
    have value : (Char.ofNat n).toNat = n := toNat_ofNat_of_isValidChar (.inl (by omega))
    rw [utf8EncodeChar_two (by omega) (by omega), ofNat_eq_of_eq_toNat lead (by omega),
      ofNat_eq_of_eq_toNat last (by omega)]
  by_cases three : lead.toNat < 0xf0
  · obtain ⟨low, high, leading, lowest, highest⟩ := ofLead?_three (Nat.le_of_not_lt two) three
    rw [leading] at begins
    cases begins
    obtain ⟨second, bits, _, rfl, withinSecond, numberSecond, closed⟩ := closed.exists_next
    obtain ⟨last, n, rfl, within, number, rfl⟩ := closed.exists_last
    -- the bounds of the second byte keep out overlong forms and surrogates
    have scalar : n.isValidChar := by
      unfold Nat.isValidChar
      omega
    have value := toNat_ofNat_of_isValidChar scalar
    rw [utf8EncodeChar_three (by omega) (by omega), ofNat_eq_of_eq_toNat lead (by omega),
      ofNat_eq_of_eq_toNat second (by omega), ofNat_eq_of_eq_toNat last (by omega)]
  · obtain ⟨low, high, leading, lowest, highest⟩ := ofLead?_four (Nat.le_of_not_lt three) upper
    rw [leading] at begins
    cases begins
    obtain ⟨second, front, _, rfl, withinSecond, numberSecond, closed⟩ := closed.exists_next
    obtain ⟨third, bits, _, rfl, withinThird, numberThird, closed⟩ := closed.exists_next
    obtain ⟨last, n, rfl, within, number, rfl⟩ := closed.exists_last
    have scalar : n.isValidChar := by
      unfold Nat.isValidChar
      omega
    have value := toNat_ofNat_of_isValidChar scalar
    rw [utf8EncodeChar_four (by omega), ofNat_eq_of_eq_toNat lead (by omega),
      ofNat_eq_of_eq_toNat second (by omega), ofNat_eq_of_eq_toNat third (by omega),
      ofNat_eq_of_eq_toNat last (by omega)]

theorem decodeFrom_utf8EncodeChar (c : Char) (index : Nat) (rest : List UInt8) :
    ∃ after, decodeFrom index none (String.utf8EncodeChar c ++ rest) =
      (c :: ·) <$> decodeFrom after none rest := by
  by_cases ascii : c.toNat ≤ 0x7f
  · have byte : (UInt8.ofNat c.toNat).toNat = c.toNat :=
      UInt8.toNat_ofNat_of_lt' (Nat.lt_of_le_of_lt ascii (by decide))
    refine ⟨index + 1, ?_⟩
    simp only [utf8EncodeChar_one ascii, List.cons_append, List.nil_append, decodeFrom, byte,
      if_pos (Nat.lt_succ_of_le ascii), Char.ofNat_toNat]
  · obtain ⟨lead, tail, begun, written, begins, closed⟩ :=
      closes_of_utf8EncodeChar (Nat.lt_of_not_le ascii)
    have large : ¬ lead.toNat < 0x80 := by
      have bounds := bounds_of_ofLead? begins
      omega
    rw [written, List.cons_append, decodeFrom, if_neg large, begins]
    exact decodeFrom_of_closes closed index rest

theorem decodeFrom_flatMap (chars : List Char) (index : Nat) :
    decodeFrom index none (chars.flatMap String.utf8EncodeChar) = .ok chars := by
  induction chars generalizing index with
  | nil => rfl
  | cons c chars inductionHypothesis =>
      obtain ⟨after, decoded⟩ :=
        decodeFrom_utf8EncodeChar c index (chars.flatMap String.utf8EncodeChar)
      rw [List.flatMap_cons, decoded, inductionHypothesis]
      rfl

/-- What the reader accepts begins with the bytes of the first character that it gives. -/
theorem exists_utf8EncodeChar {index : Nat} {byte : UInt8} {data : List UInt8} {chars : List Char}
    (decoded : decodeFrom index none (byte :: data) = .ok chars) :
    ∃ c others rest after, chars = c :: others ∧
      byte :: data = String.utf8EncodeChar c ++ rest ∧ decodeFrom after none rest = .ok others := by
  rw [decodeFrom] at decoded
  split at decoded
  case isTrue ascii =>
    cases rest : decodeFrom (index + 1) none data with
    | error fault =>
        rw [rest] at decoded
        contradiction
    | ok others =>
        rw [rest] at decoded
        cases decoded
        have value := toNat_ofNat_of_isValidChar (n := byte.toNat) (.inl (by omega))
        refine ⟨Char.ofNat byte.toNat, others, data, index + 1, rfl, ?_, rest⟩
        rw [utf8EncodeChar_one (by omega), ofNat_eq_of_eq_toNat byte value]
        rfl
  case isFalse =>
    cases begins : Begun.ofLead? byte.toNat with
    | none => simp [begins] at decoded
    | some begun =>
        rw [begins] at decoded
        obtain ⟨tail, c, rest, others, after, closed, rfl, rfl, remaining⟩ :=
          closes_of_decodeFrom decoded
        refine ⟨c, others, rest, after, rfl, ?_, remaining⟩
        rw [utf8EncodeChar_of_closes begins closed]
        rfl

theorem eq_flatMap_of_decodeFrom {index : Nat} {data : List UInt8} {chars : List Char}
    (decoded : decodeFrom index none data = .ok chars) :
    data = chars.flatMap String.utf8EncodeChar := by
  induction chars generalizing index data with
  | nil =>
      cases data with
      | nil => rfl
      | cons byte data =>
          obtain ⟨_, _, _, _, impossible, _⟩ := exists_utf8EncodeChar decoded
          contradiction
  | cons c chars inductionHypothesis =>
      cases data with
      | nil => simp [decodeFrom] at decoded
      | cons byte data =>
          obtain ⟨_, _, rest, after, same, written, remaining⟩ := exists_utf8EncodeChar decoded
          cases same
          rw [written, List.flatMap_cons, ← inductionHypothesis remaining]

/-- The reader gives a text back exactly for the bytes that the text is written as. -/
theorem decode_eq_ok_iff {data : List UInt8} {text : String} :
    decode data = .ok text ↔ data = encode text := by
  constructor
  · intro decoded
    unfold decode at decoded
    cases read : decodeFrom 0 none data with
    | error fault =>
        rw [read] at decoded
        contradiction
    | ok chars =>
        rw [read] at decoded
        cases decoded
        rw [eq_flatMap_of_decodeFrom read, encode, String.toList_ofList]
  · intro written
    subst written
    rw [decode, encode, decodeFrom_flatMap]
    exact congrArg Except.ok text.ofList_toList

end WordHart.Utf8
