import Mathlib
import WordHart.Proofs.Utf8
import WordHart.Snapshot.Codec

/-!
A codec is exact when it reads a value precisely from what it writes for that
value, whatever bytes follow. The law is proved once for each primitive and each
combinator, and holds of a record because it holds of its fields.
-/

namespace WordHart.Codec

variable {α β : Type}

/-- Reading gives a value back precisely from its bytes, and the value is then `sized`. -/
def Exact (codec : Codec α) (sized : α → Prop) : Prop :=
  ∀ data value rest, codec.decode data = .ok (value, rest) ↔
    sized value ∧ data = codec.encode value ++ rest

theorem bind_eq_ok_iff {ε σ τ : Type} {first : Except ε σ} {next : σ → Except ε τ} {result : τ} :
    first >>= next = .ok result ↔ ∃ middle, first = .ok middle ∧ next middle = .ok result := by
  cases first with
  | error reason => simp [bind, Except.bind]
  | ok middle => simp [bind, Except.bind]

theorem Exact.of_iff {codec : Codec α} {sized wanted : α → Prop} (exact : codec.Exact sized)
    (agree : ∀ value, wanted value ↔ sized value) : codec.Exact wanted := by
  intro data value rest
  rw [exact, agree]

theorem split?_eq_some_iff {count : Nat} {data front rest : List UInt8} :
    split? count data = some (front, rest) ↔ front.length = count ∧ data = front ++ rest := by
  constructor
  · intro found
    exact (split?_eq_some found).symm
  · intro parts
    rcases parts with ⟨rfl, rfl⟩
    exact split?_append front rest

theorem toNat_ofNat_value (data : List UInt8) :
    (BitVec.ofNat (8 * data.length) (LittleEndian.value data)).toNat = LittleEndian.value data := by
  have bounded := LittleEndian.value_lt data
  rw [BitVec.toNat_ofNat]
  apply Nat.mod_eq_of_lt
  rwa [Nat.pow_mul]

theorem value_bytes_toNat {count : Nat} (value : BitVec (8 * count)) :
    LittleEndian.value (LittleEndian.bytes count value.toNat) = value.toNat := by
  have bounded := value.isLt
  rw [LittleEndian.value_bytes]
  apply Nat.mod_eq_of_lt
  rwa [Nat.pow_mul] at bounded

theorem number_exact (count : Nat) : (number count).Exact fun _ => True := by
  intro data value rest
  simp only [number, true_and]
  constructor
  · intro decoded
    cases found : split? count data with
    | none => simp [found] at decoded
    | some pieces =>
        obtain ⟨front, after⟩ := pieces
        obtain ⟨rfl, rfl⟩ := split?_eq_some_iff.mp found
        simp only [found, Except.ok.injEq, Prod.mk.injEq] at decoded
        obtain ⟨rfl, rfl⟩ := decoded
        rw [toNat_ofNat_value, LittleEndian.bytes_value]
  · intro written
    subst written
    have found : split? count (LittleEndian.bytes count value.toNat ++ rest) =
        some (LittleEndian.bytes count value.toNat, rest) :=
      split?_eq_some_iff.mpr ⟨LittleEndian.length_bytes count _, rfl⟩
    simp only [found, value_bytes_toNat, BitVec.ofNat_toNat, BitVec.setWidth_eq]

theorem word_exact : word.Exact fun _ => True := number_exact 4

theorem long_exact : long.Exact fun _ => True := number_exact 8

theorem switch_exact : switch.Exact fun _ => True := by
  intro data value rest
  cases data with
  | nil => simp [switch]
  | cons byte data =>
      by_cases zero : byte = 0
      · cases value <;> simp [switch, zero]
      · by_cases one : byte = 1
        · cases value <;> simp [switch, one]
        · cases value <;> simp [switch, zero, one]

theorem Exact.pair {first : Codec α} {second : Codec β} {left : α → Prop} {right : β → Prop}
    (firstExact : first.Exact left) (secondExact : second.Exact right) :
    (first.pair second).Exact fun value => left value.1 ∧ right value.2 := by
  intro data value rest
  obtain ⟨front, back⟩ := value
  simp only [Codec.pair, bind_eq_ok_iff, pure, Except.pure, Except.ok.injEq, Prod.mk.injEq,
    Prod.exists]
  constructor
  · intro read
    rcases read with ⟨_, middle, readFirst, _, _, readSecond, ⟨rfl, rfl⟩, rfl⟩
    obtain ⟨frontSized, rfl⟩ := (firstExact _ _ _).mp readFirst
    obtain ⟨backSized, rfl⟩ := (secondExact _ _ _).mp readSecond
    exact ⟨⟨frontSized, backSized⟩, (List.append_assoc _ _ _).symm⟩
  · intro written
    rcases written with ⟨⟨frontSized, backSized⟩, rfl⟩
    refine ⟨front, second.encode back ++ rest, ?_, back, rest, ?_, ⟨rfl, rfl⟩, rfl⟩
    · exact (firstExact _ _ _).mpr ⟨frontSized, List.append_assoc _ _ _⟩
    · exact (secondExact _ _ _).mpr ⟨backSized, rfl⟩

theorem Exact.imap {codec : Codec α} {sized : α → Prop} {build : α → β} {takeApart : β → α}
    (exact : codec.Exact sized) (built : ∀ value, build (takeApart value) = value)
    (takenApart : ∀ value, takeApart (build value) = value) :
    (codec.imap build takeApart).Exact fun value => sized (takeApart value) := by
  intro data value rest
  simp only [Codec.imap, bind_eq_ok_iff, pure, Except.pure, Except.ok.injEq, Prod.mk.injEq,
    Prod.exists]
  constructor
  · intro decoded
    rcases decoded with ⟨_, _, read, rfl, rfl⟩
    rw [takenApart]
    exact (exact _ _ _).mp read
  · intro written
    exact ⟨takeApart value, rest, (exact _ _ _).mpr written, built value, rfl⟩

theorem Exact.vector {item : Codec α} (exact : item.Exact fun _ => True) (count : Nat) :
    (item.vector count).Exact fun _ => True := by
  induction count with
  | zero =>
      intro data value rest
      have empty : value = #v[] := Vector.eq_empty
      subst empty
      simp [Codec.vector, eq_comm]
  | succ count inductionHypothesis =>
      have built (items : Vector α (count + 1)) : items.pop.push items.back = items :=
        items.push_pop_back
      have takenApart (value : Vector α count × α) :
          ((value.1.push value.2).pop, (value.1.push value.2).back) = value := by
        simp [Vector.back_eq_getElem]
      exact ((inductionHypothesis.pair exact).imap built takenApart).of_iff fun _ => by simp

theorem decodeMany_eq_ok_iff {item : Codec α} (exact : item.Exact fun _ => True) {count : Nat}
    {data rest : List UInt8} {items : List α} :
    decodeMany item count data = .ok (items, rest) ↔
      items.length = count ∧ data = items.flatMap item.encode ++ rest := by
  induction count generalizing data rest items with
  | zero =>
      simp only [decodeMany, Except.ok.injEq, Prod.mk.injEq, List.length_eq_zero_iff]
      constructor
      · intro read
        rcases read with ⟨rfl, rfl⟩
        exact ⟨rfl, rfl⟩
      · intro written
        rcases written with ⟨rfl, rfl⟩
        exact ⟨rfl, rfl⟩
  | succ count inductionHypothesis =>
      simp only [decodeMany, bind_eq_ok_iff, pure, Except.pure, Except.ok.injEq, Prod.mk.injEq,
        Prod.exists, inductionHypothesis]
      constructor
      · intro read
        rcases read with ⟨first, middle, read, others, _, ⟨rfl, rfl⟩, rfl, rfl⟩
        obtain ⟨-, rfl⟩ := (exact _ _ _).mp read
        exact ⟨rfl, by simp⟩
      · intro written
        rcases written with ⟨length, rfl⟩
        cases items with
        | nil => contradiction
        | cons first others =>
            refine ⟨first, others.flatMap item.encode ++ rest, ?_, others, rest,
              ⟨Nat.succ.inj length, rfl⟩, rfl, rfl⟩
            exact (exact _ _ _).mpr ⟨trivial, by simp⟩

theorem toNat_ofNat_of_lt {count : Nat} (fits : count < 2 ^ 64) :
    (BitVec.ofNat 64 count).toNat = count := by
  rw [BitVec.toNat_ofNat, Nat.mod_eq_of_lt fits]

theorem Exact.list {item : Codec α} (exact : item.Exact fun _ => True) :
    item.list.Exact fun items => items.length < 2 ^ 64 := by
  intro data items rest
  simp only [Codec.list, bind_eq_ok_iff, Prod.exists, decodeMany_eq_ok_iff exact]
  constructor
  · intro read
    rcases read with ⟨count, _, read, length, rfl⟩
    obtain ⟨-, rfl⟩ := (long_exact _ _ _).mp read
    have same : BitVec.ofNat 64 items.length = count := by
      rw [length, BitVec.ofNat_toNat, BitVec.setWidth_eq]
    rw [same, length]
    exact ⟨count.isLt, (List.append_assoc _ _ _).symm⟩
  · intro written
    rcases written with ⟨fits, rfl⟩
    refine ⟨BitVec.ofNat 64 items.length, items.flatMap item.encode ++ rest, ?_,
      (toNat_ofNat_of_lt fits).symm, rfl⟩
    exact (long_exact _ _ _).mpr ⟨trivial, List.append_assoc _ _ _⟩

theorem text_exact : text.Exact fun value => (Utf8.encode value).length < 2 ^ 64 := by
  intro data value rest
  simp only [text, bind_eq_ok_iff, Prod.exists]
  constructor
  · intro decoded
    rcases decoded with ⟨count, after, read, taken⟩
    obtain ⟨-, rfl⟩ := (long_exact _ _ _).mp read
    cases found : split? count.toNat after with
    | none => simp [found] at taken
    | some pieces =>
        obtain ⟨front, remaining⟩ := pieces
        obtain ⟨length, rfl⟩ := split?_eq_some_iff.mp found
        cases decoded : Utf8.decode front with
        | error fault => simp [found, decoded] at taken
        | ok written =>
            simp only [found, decoded, Except.ok.injEq, Prod.mk.injEq] at taken
            obtain ⟨rfl, rfl⟩ := taken
            rw [← Utf8.decode_eq_ok_iff.mp decoded, length, BitVec.ofNat_toNat,
              BitVec.setWidth_eq]
            exact ⟨count.isLt, (List.append_assoc _ _ _).symm⟩
  · intro written
    rcases written with ⟨fits, rfl⟩
    refine ⟨BitVec.ofNat 64 (Utf8.encode value).length, Utf8.encode value ++ rest, ?_, ?_⟩
    · exact (long_exact _ _ _).mpr ⟨trivial, List.append_assoc _ _ _⟩
    · have found : split? (BitVec.ofNat 64 (Utf8.encode value).length).toNat
          (Utf8.encode value ++ rest) = some (Utf8.encode value, rest) :=
        split?_eq_some_iff.mpr ⟨(toNat_ofNat_of_lt fits).symm, rfl⟩
      have decoded : Utf8.decode (Utf8.encode value) = .ok value := Utf8.decode_eq_ok_iff.mpr rfl
      simp only [found, decoded]

end WordHart.Codec
