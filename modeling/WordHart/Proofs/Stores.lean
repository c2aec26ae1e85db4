import Mathlib
import WordHart.Machine.Basic

namespace WordHart

/-- What puts words into the memory of a machine. -/
inductive Store where
  | write (index : Nat) (words : List Word)
  | load (program : List Word)
  deriving DecidableEq

namespace Store

variable {store : Store} {size index : Nat}

def start : Store → Nat
  | write index _ => index
  | load _ => 0

def words : Store → List Word
  | write _ words => words
  | load program => program

/-- The word that a store puts at an index, if it reaches so far. -/
def word? (store : Store) (index : Nat) : Option Word :=
  if store.start ≤ index then store.words[index - store.start]? else none

/-- All words of a store lie inside a memory of the given size. -/
def Fits (size : Nat) (store : Store) : Prop := store.start + store.words.length ≤ size

instance (size : Nat) : DecidablePred (Fits size) :=
  fun store => inferInstanceAs (Decidable (store.start + store.words.length ≤ size))

/-- Why a store is refused by a memory of the given size that it does not fit into. -/
def refusal (size : Nat) : Store → LoadError
  | write index _ => .memory (.outOfBounds index)
  | load program => .tooLarge program.length size

/-- What the last of the stores that reach an index puts there. -/
def lastWord? (stores : List Store) (index : Nat) : Option Word :=
  stores.reverse.findSome? (·.word? index)

@[simp] theorem lastWord?_cons (store : Store) (stores : List Store) (index : Nat) :
    lastWord? (store :: stores) index = (lastWord? stores index).or (store.word? index) := by
  rw [lastWord?, List.reverse_cons, List.findSome?_append, List.findSome?_singleton]
  rfl

end Store

namespace Memory

variable {memory : Memory} {store : Store} {index : Nat} {words : List Word}

theorem write_eq_ok_iff : (memory.write index words).1 = .ok () ↔
    index + words.length ≤ memory.size := by
  by_cases fits : index + words.length ≤ memory.size
  · simp [write_of_fits fits, fits]
  · simp [write_of_exceeds (Nat.lt_of_not_le fits), fits]

/-- An accepted write hides the words that it reaches and keeps the others. -/
theorem getElem?_words_write (fits : store.Fits memory.size) (index : Nat) :
    (memory.write store.start store.words).2.words[index]? =
      (store.word? index).or memory.words[index]? := by
  have inside : store.start + store.words.length ≤ memory.words.length := by
    rw [length_words]
    exact fits
  have front : (memory.words.take store.start).length = store.start := by
    rw [List.length_take]
    omega
  rw [words_write fits, List.append_assoc, Store.word?]
  by_cases before : index < store.start
  · rw [List.getElem?_append_left (by omega), List.getElem?_take_of_lt before,
      if_neg (Nat.not_le_of_lt before), Option.none_or]
  · rw [List.getElem?_append_right (by omega), front, if_pos (Nat.le_of_not_lt before)]
    by_cases reached : index - store.start < store.words.length
    · rw [List.getElem?_append_left reached, List.getElem?_eq_getElem reached, Option.some_or]
    · have behind : store.words.length ≤ index - store.start := Nat.le_of_not_lt reached
      have place : store.start + store.words.length +
          (index - store.start - store.words.length) = index := by omega
      rw [List.getElem?_append_right behind, List.getElem?_drop, place,
        List.getElem?_eq_none behind, Option.none_or]

/-- The end of a stretch as it is found with 64-bit indices. There is none past the last index. -/
def checkedEnd? (index count : BitVec 64) : Option (BitVec 64) :=
  if index.uaddOverflow count then none else some (index + count)

/-- Indices of 64 bits do not wrap into memory. -/
theorem exists_checkedEnd?_iff {index count : BitVec 64} {size : Nat} (bound : size < 2 ^ 64) :
    (∃ last, checkedEnd? index count = some last ∧ last.toNat ≤ size) ↔
      index.toNat + count.toNat ≤ size := by
  unfold checkedEnd?
  by_cases wraps : 2 ^ 64 ≤ index.toNat + count.toNat
  · have overflow : index.uaddOverflow count = true := decide_eq_true wraps
    simp only [overflow, if_true, reduceCtorEq, false_and, exists_false, false_iff]
    omega
  · have proper : ¬ index.uaddOverflow count = true := mt of_decide_eq_true wraps
    have whole : (index + count).toNat = index.toNat + count.toNat :=
      BitVec.toNat_add_of_lt (Nat.lt_of_not_le wraps)
    simp only [proper, Bool.false_eq_true, if_false, Option.some.injEq, exists_eq_left', whole]

end Memory

namespace Machine

def store (machine : Machine) : Store → Except LoadError Unit × Machine
  | .write index words =>
      let (written, memory) := machine.memory.write index words
      (written.mapError .memory, { machine with memory })
  | .load program => machine.load program

/-- The machine after stores in a row, whether each of them is accepted or not. -/
def storeAll (machine : Machine) : List Store → Machine
  | [] => machine
  | store :: stores => (machine.store store).2.storeAll stores

/-- Those of the stores in a row that are accepted. -/
def accepted (machine : Machine) : List Store → List Store
  | [] => []
  | store :: stores =>
      match machine.store store with
      | (.ok (), next) => store :: next.accepted stores
      | (.error _, next) => next.accepted stores

variable {machine : Machine} {store : Store} {program : List Word}

theorem store_of_fits (fits : store.Fits machine.memory.size) :
    machine.store store =
      (.ok (), { machine with memory := (machine.memory.write store.start store.words).2 }) := by
  cases store with
  | write index words =>
      have inside : index + words.length ≤ machine.memory.size := fits
      simp only [Machine.store, Store.start, Store.words, Memory.write_of_fits inside]
      rfl
  | load program =>
      apply load_of_fits
      rw [← Nat.zero_add program.length]
      exact fits

theorem store_of_exceeds (exceeds : ¬ store.Fits machine.memory.size) :
    machine.store store = (.error (store.refusal machine.memory.size), machine) := by
  cases store with
  | write index words =>
      have beyond : machine.memory.size < index + words.length := Nat.lt_of_not_le exceeds
      simp only [Machine.store, Memory.write_of_exceeds beyond]
      rfl
  | load program =>
      apply load_of_exceeds
      rw [← Nat.zero_add program.length]
      exact Nat.lt_of_not_le exceeds

theorem load_eq_ok_iff :
    (machine.load program).1 = .ok () ↔ program.length ≤ machine.memory.size := by
  by_cases fits : program.length ≤ machine.memory.size
  · simp [load_of_fits fits, fits]
  · simp [load_of_exceeds (Nat.lt_of_not_le fits), fits]

@[simp] theorem size_store (machine : Machine) (store : Store) :
    (machine.store store).2.memory.size = machine.memory.size := by
  by_cases fits : store.Fits machine.memory.size
  · rw [store_of_fits fits]
    exact Memory.size_write _ _ _
  · rw [store_of_exceeds fits]

@[simp] theorem size_storeAll (machine : Machine) (stores : List Store) :
    (machine.storeAll stores).memory.size = machine.memory.size := by
  induction stores generalizing machine with
  | nil => rfl
  | cons store stores inductionHypothesis =>
      exact (inductionHypothesis _).trans (machine.size_store store)

/-- Whether a store is accepted depends on no other store. -/
theorem accepted_eq_filter (machine : Machine) (stores : List Store) :
    machine.accepted stores = stores.filter fun store => store.Fits machine.memory.size := by
  induction stores generalizing machine with
  | nil => rfl
  | cons store stores inductionHypothesis =>
      have rest := inductionHypothesis (machine.store store).2
      rw [size_store] at rest
      by_cases fits : store.Fits machine.memory.size
      · rw [store_of_fits fits] at rest
        simp only [accepted, store_of_fits fits, List.filter_cons, fits, decide_true, if_true, rest]
      · rw [store_of_exceeds fits] at rest
        simp only [accepted, store_of_exceeds fits, List.filter_cons, fits, decide_false,
          Bool.false_eq_true, if_false, rest]

theorem getElem?_words_store (fits : store.Fits machine.memory.size) (index : Nat) :
    (machine.store store).2.memory.words[index]? =
      (store.word? index).or machine.memory.words[index]? := by
  rw [store_of_fits fits]
  exact Memory.getElem?_words_write fits index

theorem getElem?_words_storeAll (machine : Machine) (stores : List Store) (index : Nat) :
    (machine.storeAll stores).memory.words[index]? =
      (Store.lastWord? (machine.accepted stores) index).or machine.memory.words[index]? := by
  induction stores generalizing machine with
  | nil => rfl
  | cons store stores inductionHypothesis =>
      -- The stores that follow are made on the machine after this one, and they win over it.
      rw [storeAll, inductionHypothesis, accepted]
      by_cases fits : store.Fits machine.memory.size
      · rw [getElem?_words_store fits, store_of_fits fits, Store.lastWord?_cons, Option.or_assoc]
      · rw [store_of_exceeds fits]

/-- Stores into a memory of zeros, in any order: each is accepted exactly if all of its words fit,
which indices of 64 bits decide alike, a refused one changes nothing, and every index holds what the
last accepted store that reaches it has put there. -/
theorem memory_holds_last_stores (hart : Hart) (config : Config) (size : Nat)
    (stores : List Store) :
    let machine : Machine := ⟨hart, .zero size, config⟩
    let reached := machine.storeAll stores
    reached.memory.size = size ∧
      (machine.accepted stores = stores.filter fun store => store.Fits size) ∧
      (∀ index words,
        ((reached.memory.write index words).1 = .ok () ↔ index + words.length ≤ size) ∧
        (size < index + words.length →
          reached.memory.write index words = (.error (.outOfBounds index), reached.memory))) ∧
      (∀ (index : BitVec 64) words, words.length < 2 ^ 64 → size < 2 ^ 64 →
        ((reached.memory.write index.toNat words).1 = .ok () ↔
          ∃ last, Memory.checkedEnd? index (.ofNat 64 words.length) = some last ∧
            last.toNat ≤ size)) ∧
      (∀ program,
        ((reached.load program).1 = .ok () ↔ program.length ≤ size) ∧
        (size < program.length →
          reached.load program = (.error (.tooLarge program.length size), reached))) ∧
      ∀ index : Word,
        (index.toNat < size → reached.memory.load index =
          .ok ((Store.lastWord? (machine.accepted stores) index.toNat).getD 0)) ∧
        (size ≤ index.toNat → reached.memory.load index = .error (.outOfBounds index.toNat)) := by
  intro machine reached
  have zeros : machine.memory.size = size := Memory.size_zero size
  have kept : reached.memory.size = size := (machine.size_storeAll stores).trans zeros
  have accepted := machine.accepted_eq_filter stores
  rw [zeros] at accepted
  refine ⟨kept, accepted, fun index words => ⟨?_, ?_⟩, fun index words short bound => ?_,
    fun program => ⟨?_, ?_⟩, fun index => ⟨?_, ?_⟩⟩
  · rw [Memory.write_eq_ok_iff, kept]
  · intro exceeds
    apply Memory.write_of_exceeds
    rwa [kept]
  · have count : (BitVec.ofNat 64 words.length).toNat = words.length :=
      Nat.mod_eq_of_lt short
    rw [Memory.write_eq_ok_iff, kept, Memory.exists_checkedEnd?_iff bound, count]
  · rw [load_eq_ok_iff, kept]
  · intro exceeds
    rw [← kept] at exceeds ⊢
    exact load_of_exceeds exceeds
  · intro inside
    have zero : machine.memory.words[index.toNat]? = some 0 := by
      rw [Memory.words_zero, List.getElem?_replicate, if_pos inside]
    apply Memory.load_of_words
    rw [getElem?_words_storeAll, zero, Option.or_some]
  · intro beyond
    apply Memory.load_of_beyond
    rwa [kept]

theorem memory_holds_last_stores_overlapping :
    let machine : Machine := ⟨.new {}, .zero 4, {}⟩
    let stores : List Store := [.write 1 [1, 2, 3], .write 2 [9, 9, 9], .load [7, 8], .write 4 []]
    let reached := machine.storeAll stores
    machine.accepted stores = [.write 1 [1, 2, 3], .load [7, 8], .write 4 []] ∧
      reached.memory.load 1 = .ok 8 ∧ reached.memory.load 2 = .ok 2 ∧
      reached.memory.load 4 = .error (.outOfBounds 4) ∧
      (reached.memory.write 4 []).1 = .ok () ∧
      reached.memory.write 5 [] = (.error (.outOfBounds 5), reached.memory) ∧
      (reached.memory.write (BitVec.allOnes 64).toNat [6, 6]).1 ≠ .ok () ∧
      reached.load [5, 5, 5, 5, 5] = (.error (.tooLarge 5 4), reached) := by
  intro machine stores reached
  obtain ⟨-, accepted, write, checked, load, held⟩ :=
    memory_holds_last_stores (.new {}) {} 4 stores
  have kept : machine.accepted stores = [.write 1 [1, 2, 3], .load [7, 8], .write 4 []] := by
    rw [accepted]
    decide
  refine ⟨kept, ?_, ?_, (held 4).2 (by decide), (write 4 []).1.mpr (by decide),
    (write 5 []).2 (by decide), ?_, (load [5, 5, 5, 5, 5]).2 (by decide)⟩
  · rw [(held 1).1 (by decide), kept]
    decide
  · rw [(held 2).1 (by decide), kept]
    decide
  · intro written
    obtain ⟨last, found, _⟩ := (checked (.allOnes 64) [6, 6] (by decide) (by decide)).mp written
    have wraps : Memory.checkedEnd? (.allOnes 64) 2 = none := by decide
    exact Option.some_ne_none last (found.symm.trans wraps)

end Machine

end WordHart
