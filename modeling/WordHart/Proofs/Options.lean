import Mathlib
import WordHart.CommandLine.Options
import WordHart.Proofs.Numerals

namespace WordHart.CommandLine

variable {arguments : List String} {items : List Item} {options : Options}

/-- The natural number that a text denotes: decimal digits, perhaps behind a plus sign. -/
def DenotesNatural (text : String) (n : Nat) : Prop :=
  ∃ digits, Numeral.IsDecimal digits n ∧ (text.toList = digits ∨ text.toList = '+' :: digits)

/-- The 64-bit number that a text denotes. -/
def DenotesLong (text : String) (value : BitVec 64) : Prop := DenotesNatural text value.toNat

/-- The register whose number a text denotes. A minus sign may stand in front of zero. -/
def DenotesRegister (text : String) (register : Register) : Prop :=
  DenotesNatural text register.index.toNat ∨
    register = .x0 ∧ ∃ digits, Numeral.IsDecimal digits 0 ∧ text.toList = '-' :: digits

/-- Any text but the empty one is a path. -/
def DenotesPath (text path : String) : Prop := text = path ∧ text ≠ ""

/-- The value of a setting: what the one text denotes that is given for it, if any is. -/
def Given {α : Type} (items : List Item) (setting : Setting) (denotes : String → α → Prop) :
    Option α → Prop
  | none => valuesOf setting items = []
  | some value => ∃ text, valuesOf setting items = [text] ∧ denotes text value

/-- The program is the file that is given, or else the inline words, or else the built-in one. -/
def Source.Given (items : List Item) : Source → Prop
  | demo => valuesOf .program items = [] ∧ valuesOf .word items = []
  | inline texts => valuesOf .program items = [] ∧ valuesOf .word items = texts ∧ texts ≠ []
  | file path => valuesOf .program items = [path] ∧ valuesOf .word items = []

/-- What options say of the items on the command line. -/
structure Options.Selected (items : List Item) (options : Options) : Prop where
  source : options.source.Given items
  memoryWords : ∃ given, Given items .memoryWords DenotesLong given ∧
    options.config.memoryWords = given.getD 1024
  hardwireX0 : options.config.mode.hardwireX0 = true ↔ .switch .hardwireX0 ∈ items
  jalrReadsRs1First :
    options.config.mode.jalrReadsRs1First = true ↔ .switch .jalrReadsRs1First ∈ items
  budget : Given items .maxSteps DenotesLong options.budget
  register : ∃ given, Given items .register DenotesRegister given ∧
    options.register = given.getD (.ofNat 3)
  dumpRegisters : options.dumpRegisters = true ↔ .switch .dumpRegisters ∈ items
  snapshotPath : Given items .snapshotPath DenotesPath options.snapshotPath

theorem head_of_isDecimal {digits : List Char} {n : Nat} (decimal : Numeral.IsDecimal digits n) :
    ∀ c ∈ digits.head?, c ≠ '+' ∧ c ≠ '-' := by
  obtain ⟨values, rfl, below, -, -⟩ := decimal
  intro c first
  obtain ⟨value, member, rfl⟩ := List.mem_map.mp (List.mem_of_mem_head? first)
  have small := below value member
  interval_cases value <;> decide

theorem denotesNatural_of_plus {text : String} {rest : List Char} {n : Nat}
    (signed : text.toList = '+' :: rest) : DenotesNatural text n ↔ Numeral.IsDecimal rest n := by
  rw [DenotesNatural, signed]
  constructor
  · intro denotes
    obtain ⟨digits, decimal, rfl | same⟩ := denotes
    · exact absurd rfl (head_of_isDecimal decimal '+' rfl).1
    · cases same
      exact decimal
  · intro decimal
    exact ⟨rest, decimal, .inr rfl⟩

theorem denotesNatural_of_no_plus {text : String} {n : Nat}
    (unsigned : ∀ rest, text.toList ≠ '+' :: rest) :
    DenotesNatural text n ↔ Numeral.IsDecimal text.toList n := by
  constructor
  · intro denotes
    obtain ⟨digits, decimal, rfl | signed⟩ := denotes
    · exact decimal
    · exact absurd signed (unsigned digits)
  · intro decimal
    exact ⟨text.toList, decimal, .inl rfl⟩

theorem denotesRegister_of_minus {text : String} {rest : List Char} {register : Register}
    (signed : text.toList = '-' :: rest) :
    DenotesRegister text register ↔ register = .x0 ∧ Numeral.IsDecimal rest 0 := by
  have unsigned : ∀ rest, text.toList ≠ '+' :: rest := by simp [signed]
  rw [DenotesRegister, denotesNatural_of_no_plus unsigned, signed]
  constructor
  · intro denotes
    rcases denotes with decimal | ⟨zero, digits, decimal, same⟩
    · exact absurd rfl (head_of_isDecimal decimal '-' rfl).2
    · cases same
      exact ⟨zero, decimal⟩
  · intro denotes
    exact .inr ⟨denotes.1, rest, denotes.2, rfl⟩

theorem denotesRegister_of_no_minus {text : String} {register : Register}
    (unsigned : ∀ rest, text.toList ≠ '-' :: rest) :
    DenotesRegister text register ↔ DenotesNatural text register.index.toNat := by
  constructor
  · intro denotes
    rcases denotes with natural | ⟨-, digits, -, signed⟩
    · exact natural
    · exact absurd signed (unsigned digits)
  · exact .inl

theorem long?_eq_some_iff {text : String} {value : BitVec 64} :
    long? text = some value ↔ DenotesLong text value := by
  have fits (n : Nat) : (if (BitVec.ofNat 64 n).toNat = n then some (BitVec.ofNat 64 n) else none) =
      some value ↔ n = value.toNat := by
    constructor
    · intro wrapped
      split at wrapped
      case isTrue whole =>
        cases wrapped
        exact whole.symm
      case isFalse => contradiction
    · intro number
      subst number
      simp
  unfold long? DenotesLong
  simp only [Option.bind_eq_bind, Option.bind_eq_some_iff, Numeral.natural?_eq_some_iff, fits,
    exists_eq_right]
  split
  case h_1 signed => exact (denotesNatural_of_plus signed).symm
  case h_2 unsigned => exact (denotesNatural_of_no_plus unsigned).symm

theorem numbered_eq_some_iff {limit n : Nat} {register : Register} (known : limit ≤ 32) :
    (if n < limit then some (Register.ofNat n) else none) = some register ↔
      n = register.index.toNat ∧ n < limit := by
  constructor
  · intro numbered
    split at numbered
    case isTrue small =>
      cases numbered
      have whole : (Register.ofNat n).index.toNat = n := Nat.mod_eq_of_lt (by omega)
      exact ⟨whole.symm, small⟩
    case isFalse => contradiction
  · intro numbered
    have same : Register.ofNat n = register := by
      rw [numbered.1]
      exact congrArg Register.mk (BitVec.ofNat_toNat ..)
    rw [if_pos numbered.2, same]

theorem exists_decimal_below_iff {digits : List Char} {register : Register} :
    (∃ n, Numeral.IsDecimal digits n ∧ n = register.index.toNat ∧ n < 32) ↔
      Numeral.IsDecimal digits register.index.toNat := by
  constructor
  · intro numbered
    obtain ⟨n, decimal, rfl, -⟩ := numbered
    exact decimal
  · intro decimal
    exact ⟨_, decimal, rfl, register.index.isLt⟩

theorem exists_decimal_zero_iff {digits : List Char} {register : Register} :
    (∃ n, Numeral.IsDecimal digits n ∧ n = register.index.toNat ∧ n < 1) ↔
      register = .x0 ∧ Numeral.IsDecimal digits 0 := by
  constructor
  · intro numbered
    obtain ⟨n, decimal, number, small⟩ := numbered
    cases Nat.lt_one_iff.mp small
    exact ⟨congrArg Register.mk (BitVec.eq_of_toNat_eq number.symm), decimal⟩
  · intro first
    obtain ⟨rfl, decimal⟩ := first
    exact ⟨0, decimal, rfl, Nat.one_pos⟩

theorem register?_eq_some_iff {text : String} {register : Register} :
    register? text = some register ↔ DenotesRegister text register := by
  unfold register?
  simp only [Option.bind_eq_bind, Option.bind_eq_some_iff, Numeral.natural?_eq_some_iff]
  split
  case h_1 rest signed =>
    have unsigned : ∀ rest, text.toList ≠ '-' :: rest := by simp [signed]
    rw [denotesRegister_of_no_minus unsigned, denotesNatural_of_plus signed]
    simp only [numbered_eq_some_iff Nat.le.refl, exists_decimal_below_iff]
  case h_2 rest signed =>
    rw [denotesRegister_of_minus signed]
    simp only [numbered_eq_some_iff (by decide : 1 ≤ 32), exists_decimal_zero_iff]
  case h_3 plus minus =>
    rw [denotesRegister_of_no_minus minus, denotesNatural_of_no_plus plus]
    simp only [numbered_eq_some_iff Nat.le.refl, exists_decimal_below_iff]

theorem path?_eq_some_iff {text path : String} :
    path? text = some path ↔ DenotesPath text path := by
  unfold path? DenotesPath
  split <;> simp_all

theorem valuesOf_of_atMostOne {setting : Setting} {text : Option String}
    (once : atMostOne setting items = some text) : valuesOf setting items = text.toList := by
  unfold atMostOne at once
  split at once
  case h_1 none =>
    cases once
    exact none
  case h_2 one =>
    cases once
    exact one
  case h_3 => contradiction

theorem given_of_atMostOne {α : Type} {setting : Setting} {read : String → Option α}
    {denotes : String → α → Prop}
    (read_eq_some_iff : ∀ {text value}, read text = some value ↔ denotes text value)
    {text : Option String} {value : Option α} (once : atMostOne setting items = some text)
    (taken : text.mapM read = some value) : Given items setting denotes value := by
  have values := valuesOf_of_atMostOne once
  cases text with
  | none =>
      cases taken
      exact values
  | some text =>
      rw [Option.mapM_some] at taken
      obtain ⟨value, found, rfl⟩ := Option.map_eq_some_iff.mp taken
      exact ⟨text, values, read_eq_some_iff.mp found⟩

theorem mem_iff_of_isGiven {switch : Switch} {given : Bool}
    (counted : isGiven switch items = some given) : given = true ↔ .switch switch ∈ items := by
  unfold isGiven at counted
  split at counted
  case h_1 none =>
    cases counted
    simpa using List.count_eq_zero.mp none
  case h_2 one =>
    cases counted
    simpa using List.count_pos_iff.mp (Nat.lt_of_lt_of_eq Nat.one_pos one.symm)
  case h_3 => contradiction

theorem given_of_select? {program path : Option String} {source : Source}
    (once : atMostOne .program items = some program) (taken : program.mapM path? = some path)
    (selected : Source.select? path (valuesOf .word items) = some source) : source.Given items := by
  have given := given_of_atMostOne path?_eq_some_iff once taken
  unfold Source.select? at selected
  split at selected
  case h_1 noWords =>
    cases selected
    exact ⟨given, noWords⟩
  case h_2 someWords =>
    cases selected
    exact ⟨given, rfl, someWords⟩
  case h_3 noWords =>
    cases selected
    obtain ⟨_, values, rfl, -⟩ := given
    exact ⟨values, noWords⟩
  case h_4 => contradiction

theorem selected_of_ofItems? (made : Options.ofItems? items = some options) :
    options.Selected items := by
  -- One line for each value that is read, in the order in which they are.
  obtain ⟨program, programOnce, made⟩ := Option.bind_eq_some_iff.mp made
  obtain ⟨path, pathTaken, made⟩ := Option.bind_eq_some_iff.mp made
  obtain ⟨source, sourceSelected, made⟩ := Option.bind_eq_some_iff.mp made
  obtain ⟨memory, memoryOnce, made⟩ := Option.bind_eq_some_iff.mp made
  obtain ⟨memoryWords, memoryTaken, made⟩ := Option.bind_eq_some_iff.mp made
  obtain ⟨hardwireX0, wired, made⟩ := Option.bind_eq_some_iff.mp made
  obtain ⟨jalrReadsRs1First, first, made⟩ := Option.bind_eq_some_iff.mp made
  obtain ⟨steps, stepsOnce, made⟩ := Option.bind_eq_some_iff.mp made
  obtain ⟨budget, budgetTaken, made⟩ := Option.bind_eq_some_iff.mp made
  obtain ⟨index, indexOnce, made⟩ := Option.bind_eq_some_iff.mp made
  obtain ⟨register, registerTaken, made⟩ := Option.bind_eq_some_iff.mp made
  obtain ⟨dumpRegisters, dumped, made⟩ := Option.bind_eq_some_iff.mp made
  obtain ⟨saved, savedOnce, made⟩ := Option.bind_eq_some_iff.mp made
  obtain ⟨snapshotPath, savedTaken, made⟩ := Option.bind_eq_some_iff.mp made
  cases made
  exact {
    source := given_of_select? programOnce pathTaken sourceSelected
    memoryWords := ⟨memoryWords, given_of_atMostOne long?_eq_some_iff memoryOnce memoryTaken, rfl⟩
    hardwireX0 := mem_iff_of_isGiven wired
    jalrReadsRs1First := mem_iff_of_isGiven first
    budget := given_of_atMostOne long?_eq_some_iff stepsOnce budgetTaken
    register := ⟨register, given_of_atMostOne register?_eq_some_iff indexOnce registerTaken, rfl⟩
    dumpRegisters := mem_iff_of_isGiven dumped
    snapshotPath := given_of_atMostOne path?_eq_some_iff savedOnce savedTaken }

theorem selected_of_ofArguments? (accepted : Options.ofArguments? arguments = some options) :
    ∃ items, items? arguments = some items ∧ options.Selected items := by
  obtain ⟨items, read, made⟩ := Option.bind_eq_some_iff.mp accepted
  exact ⟨items, read, selected_of_ofItems? made⟩

end WordHart.CommandLine
