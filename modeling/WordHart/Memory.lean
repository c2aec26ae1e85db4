import WordHart.Text.Numeral
import WordHart.Word

namespace WordHart

inductive AccessError where
  /-- The stretch that starts at the given index does not lie inside memory. -/
  | outOfBounds (index : Nat)
  deriving DecidableEq

def AccessError.text : AccessError → String
  | outOfBounds index => "Out-of-bounds memory access at word " ++ Numeral.hex 1 index

structure Memory where
  cells : Array Word
  deriving DecidableEq

namespace Memory

def zero (size : Nat) : Memory := ⟨Array.replicate size 0⟩

def size (memory : Memory) : Nat := memory.cells.size

def words (memory : Memory) : List Word := memory.cells.toList

def contains (memory : Memory) (index : Word) : Bool := index.toNat < memory.size

def load (memory : Memory) (index : Word) : Except AccessError Word :=
  match memory.cells[index.toNat]? with
  | some word => .ok word
  | none => .error (.outOfBounds index.toNat)

/-- Replace the cells from `index` on by the given words. -/
def overwrite (cells : Array Word) (index : Nat) : List Word → Array Word
  | [] => cells
  | word :: words => overwrite (cells.setIfInBounds index word) (index + 1) words

/-- Copy words into memory from an index on, provided that all of them fit. -/
def write (memory : Memory) (index : Nat) (words : List Word) : Except AccessError Unit × Memory :=
  if index + words.length ≤ memory.size then (.ok (), ⟨overwrite memory.cells index words⟩)
  else (.error (.outOfBounds index), memory)

def bytes (memory : Memory) : List UInt8 := LittleEndian.ofWords memory.words

@[simp] theorem length_words (memory : Memory) : memory.words.length = memory.size := by
  simp [words, size]

@[simp] theorem size_zero (count : Nat) : (zero count).size = count := by simp [zero, size]

@[simp] theorem words_zero (count : Nat) : (zero count).words = List.replicate count 0 := by
  simp [zero, words]

theorem ext_words {left right : Memory} (agree : left.words = right.words) : left = right := by
  cases left
  cases right
  exact congrArg Memory.mk (Array.toList_inj.mp agree)

theorem load_of_words {memory : Memory} {index word : Word}
    (present : memory.words[index.toNat]? = some word) : memory.load index = .ok word := by
  have stored : memory.cells[index.toNat]? = some word := by
    rw [← Array.getElem?_toList]
    exact present
  rw [load, stored]

theorem load_of_beyond {memory : Memory} {index : Word} (beyond : memory.size ≤ index.toNat) :
    memory.load index = .error (.outOfBounds index.toNat) := by
  rw [load, Array.getElem?_eq_none beyond]

theorem toList_overwrite (cells : Array Word) (index : Nat) (words : List Word)
    (fits : index + words.length ≤ cells.size) :
    (overwrite cells index words).toList =
      cells.toList.take index ++ words ++ cells.toList.drop (index + words.length) := by
  induction words generalizing cells index with
  | nil => simp [overwrite]
  | cons word words inductionHypothesis =>
      simp only [List.length_cons] at fits
      have inside : index < cells.toList.length := by
        rw [Array.length_toList]
        omega
      have front : (cells.toList.take index).length = index := by
        rw [List.length_take]
        omega
      have later : index + 1 + words.length ≤ (cells.setIfInBounds index word).size := by
        rw [Array.size_setIfInBounds]
        omega
      rw [overwrite, inductionHypothesis _ _ later, Array.toList_setIfInBounds, List.take_set,
        List.drop_set_of_lt (by omega), List.take_add_one, List.getElem?_eq_getElem inside,
        List.set_append_right _ _ (Nat.le_of_eq front), front, List.length_cons]
      simp [Nat.add_assoc, Nat.add_comm 1]

theorem write_of_fits {memory : Memory} {index : Nat} {words : List Word}
    (fits : index + words.length ≤ memory.size) :
    memory.write index words = (.ok (), ⟨overwrite memory.cells index words⟩) := if_pos fits

theorem write_of_exceeds {memory : Memory} {index : Nat} {words : List Word}
    (exceeds : memory.size < index + words.length) :
    memory.write index words = (.error (.outOfBounds index), memory) :=
  if_neg (Nat.not_le_of_lt exceeds)

theorem words_write {memory : Memory} {index : Nat} {words : List Word}
    (fits : index + words.length ≤ memory.size) :
    (memory.write index words).2.words =
      memory.words.take index ++ words ++ memory.words.drop (index + words.length) := by
  rw [write_of_fits fits]
  exact toList_overwrite memory.cells index words fits

@[simp] theorem size_write (memory : Memory) (index : Nat) (words : List Word) :
    (memory.write index words).2.size = memory.size := by
  by_cases fits : index + words.length ≤ memory.size
  · rw [← length_words, words_write fits]
    simp only [List.length_append, List.length_take, List.length_drop, length_words]
    omega
  · rw [write_of_exceeds (Nat.lt_of_not_le fits)]

end Memory

end WordHart
