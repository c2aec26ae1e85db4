namespace WordHart

/-- A 32-bit word. Addition and subtraction wrap. -/
abbrev Word := BitVec 32

namespace LittleEndian

/-- The `count` lowest bytes of `value`, the lowest one first. -/
def bytes : Nat → Nat → List UInt8
  | 0, _ => []
  | count + 1, value => UInt8.ofNat value :: bytes count (value / 256)

/-- The natural number that a byte string denotes, its first byte being the lowest. -/
def value : List UInt8 → Nat
  | [] => 0
  | byte :: rest => byte.toNat + 256 * value rest

@[simp] theorem length_bytes (count n : Nat) : (bytes count n).length = count := by
  induction count generalizing n with
  | zero => rfl
  | succ count inductionHypothesis => simp [bytes, inductionHypothesis]

theorem value_lt (data : List UInt8) : value data < Nat.pow 256 data.length := by
  induction data with
  | nil => decide
  | cons byte rest inductionHypothesis =>
      have bounded := byte.toNat_lt
      have unfolded : Nat.pow 256 (rest.length + 1) = Nat.pow 256 rest.length * 256 := rfl
      simp only [value, List.length_cons, unfolded]
      omega

theorem value_bytes (count n : Nat) : value (bytes count n) = n % Nat.pow 256 count := by
  induction count generalizing n with
  | zero => exact (Nat.mod_one n).symm
  | succ count inductionHypothesis =>
      have lowest : (UInt8.ofNat n).toNat = n % 256 := UInt8.toNat_ofNat'
      have unfolded : Nat.pow 256 (count + 1) = 256 * Nat.pow 256 count := Nat.pow_succ'
      rw [bytes, value, inductionHypothesis, lowest, unfolded, Nat.mod_mul]

theorem bytes_value (data : List UInt8) : bytes data.length (value data) = data := by
  induction data with
  | nil => rfl
  | cons byte rest inductionHypothesis =>
      have bounded := byte.toNat_lt
      have quotient : (byte.toNat + 256 * value rest) / 256 = value rest := by omega
      have lowest : UInt8.ofNat (byte.toNat + 256 * value rest) = byte := by
        apply UInt8.toNat_inj.mp
        simp only [UInt8.toNat_ofNat']
        omega
      simp only [List.length_cons, bytes, value, quotient, lowest, inductionHypothesis]

def ofWord (word : Word) : List UInt8 := bytes 4 word.toNat

def ofWords (words : List Word) : List UInt8 := words.flatMap ofWord

/-- The words with the given byte image; a byte string that is no whole number of words has none. -/
def words? : List UInt8 → Option (List Word)
  | [] => some []
  | a :: b :: c :: d :: rest => (words? rest).map (BitVec.ofNat 32 (value [a, b, c, d]) :: ·)
  | _ => none

@[simp] theorem length_ofWord (word : Word) : (ofWord word).length = 4 := length_bytes 4 _

@[simp] theorem ofWords_nil : ofWords [] = [] := rfl

@[simp] theorem ofWords_cons (word : Word) (words : List Word) :
    ofWords (word :: words) = ofWord word ++ ofWords words := by simp [ofWords]

@[simp] theorem length_ofWords (words : List Word) : (ofWords words).length = 4 * words.length := by
  induction words with
  | nil => rfl
  | cons word words inductionHypothesis =>
      simp only [ofWords_cons, List.length_append, length_ofWord, inductionHypothesis,
        List.length_cons]
      omega

end LittleEndian

end WordHart
