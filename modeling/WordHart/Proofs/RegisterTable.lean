import Mathlib
import WordHart.CommandLine.Report
import WordHart.Proofs.AssemblyText
import WordHart.Proofs.TextPage

namespace WordHart

namespace Image

theorem isSeparator_blank : isSeparator ' ' = true := by decide

theorem tokens_intercalate {separator : List Char} (nonempty : separator ≠ [])
    (separators : ∀ c ∈ separator, isSeparator c = true) (pieces : List (List Char)) :
    tokens (separator.intercalate pieces) = pieces.flatMap tokens := by
  obtain ⟨first, others, rfl⟩ := List.exists_cons_of_ne_nil nonempty
  have ⟨before, after⟩ := List.forall_mem_cons.mp separators
  induction pieces with
  | nil => rfl
  | cons piece pieces inductionHypothesis =>
      cases pieces with
      | nil => simp
      | cons next pieces =>
          rw [List.intercalate_cons_cons, List.append_assoc, List.cons_append,
            tokens_append_separator before, tokens_of_separators after, inductionHypothesis]
          exact (List.flatMap_cons ..).symm

theorem tokens_flatMap_lines {α : Type} (line : α → List Char) (list : List α) :
    tokens (list.flatMap fun a => line a ++ ['\n']) = list.flatMap fun a => tokens (line a) := by
  induction list with
  | nil => rfl
  | cons a list inductionHypothesis =>
      rw [List.flatMap_cons, List.append_assoc, List.singleton_append,
        tokens_append_separator (by decide), inductionHypothesis, List.flatMap_cons]

theorem solid_of_hexDigit? {c : Char} (digit : (Numeral.hexDigit? c).isSome) :
    isSeparator c = false := by
  obtain ⟨value, found⟩ := Option.isSome_iff_exists.mp digit
  exact (plain_of_isDigit (isDigit_of_hexDigit? found)).1

end Image

namespace CommandLine

open Image

/-- A name with its value, as a field of a text. -/
def field (entry : String × String) : List Char := entry.1.toList ++ '=' :: entry.2.toList

/-- Of what stands between the blanks of a text, one piece begins with a name and an equals sign,
and a value follows there. -/
def ShowsOnce (text name value : String) : Prop :=
  ((tokens text.toList).filter fun token => (name.toList ++ ['=']).isPrefixOf token) =
    [field (name, value)]

/-- What a text shows of a hart: the program counter, the counters and all registers, as they are
read. -/
structure Tabulates (text : String) (hart : Hart) : Prop where
  pc : ShowsOnce text "pc" (Numeral.hex 1 hart.pc.toNat)
  cycles : ShowsOnce text "cycles" (Numeral.decimal hart.counters.cycles.toNat)
  executed : ShowsOnce text "executed" (Numeral.decimal hart.counters.executed.toNat)
  ignored : ShowsOnce text "ignored" (Numeral.decimal hart.counters.ignored.toNat)
  registers : ∀ register : Register,
    ShowsOnce text register.text (Numeral.hex 8 (hart.read register).toNat)

def rowOrder (row : Nat) : List Register :=
  (List.range 4).map fun column => .ofNat (row + 8 * column)

/-- The registers in the order of the table. -/
def tableOrder : List Register := (List.range 8).flatMap rowOrder

theorem mem_tableOrder (register : Register) : register ∈ tableOrder := by
  obtain ⟨index⟩ := register
  revert index
  decide

theorem nodup_tableOrder : tableOrder.Nodup := by decide

/-- The fields in front of the registers, each a name with its value. -/
def headFields (hart : Hart) : List (String × String) :=
  [("pc", Numeral.hex 1 hart.pc.toNat),
    ("cycles", Numeral.decimal hart.counters.cycles.toNat),
    ("executed", Numeral.decimal hart.counters.executed.toNat),
    ("ignored", Numeral.decimal hart.counters.ignored.toNat)]

def registerField (hart : Hart) (register : Register) : String × String :=
  (register.text, Numeral.hex 8 (hart.read register).toNat)

def tableFields (hart : Hart) : List (String × String) :=
  headFields hart ++ tableOrder.map (registerField hart)

theorem fst_of_mem_headFields {hart : Hart} {entry : String × String}
    (member : entry ∈ headFields hart) : entry.1 ∈ ["pc", "cycles", "executed", "ignored"] :=
  List.mem_map_of_mem member

theorem solid_decimal {n : Nat} {c : Char} (member : c ∈ (Numeral.decimal n).toList) :
    isSeparator c = false := solid_of_hexDigit? (Numeral.mem_toList_decimal member)

theorem solid_hex {width n : Nat} {c : Char} (member : c ∈ (Numeral.hex width n).toList) :
    isSeparator c = false := by
  rcases Numeral.mem_toList_hex member with rfl | digit
  · decide
  · exact solid_of_hexDigit? digit

theorem solid_register {register : Register} {c : Char} (member : c ∈ register.text.toList) :
    isSeparator c = false := by
  rcases Register.mem_toList_text member with rfl | digit
  · decide
  · exact solid_of_hexDigit? digit

theorem tokens_field {entry : String × String}
    (solidName : ∀ c ∈ entry.1.toList, isSeparator c = false)
    (solidValue : ∀ c ∈ entry.2.toList, isSeparator c = false) :
    tokens (field entry) = [field entry] := by
  apply tokens_of_solid
  · exact List.append_ne_nil_of_right_ne_nil _ (List.cons_ne_nil _ _)
  · intro c member
    rcases List.mem_append.mp member with member | member
    · exact solidName c member
    · rcases List.mem_cons.mp member with rfl | member
      · decide
      · exact solidValue c member

theorem toList_cell (ending : Ending) (register : Register) :
    (ending.cell register).toList =
      List.replicate (4 - register.text.toList.length) ' ' ++
        field (registerField ending.machine.hart register) := by
  have equals : "=".toList = ['='] := rfl
  rw [Ending.cell, String.toList_append, String.toList_append, String.toList_ofList, List.leftpad,
    equals, List.append_assoc, List.append_assoc, List.singleton_append, field, registerField]

theorem tokens_cell (ending : Ending) (register : Register) :
    tokens (ending.cell register).toList =
      [field (registerField ending.machine.hart register)] := by
  have padding : ∀ c ∈ List.replicate (4 - register.text.toList.length) ' ',
      isSeparator c = true := by
    intro c member
    rw [List.eq_of_mem_replicate member]
    decide
  rw [toList_cell, tokens_of_separators padding]
  apply tokens_field
  · exact fun _ => solid_register
  · exact fun _ => solid_hex

/-- The characters of a row, without the newline at its end. -/
def rowChars (ending : Ending) (row : Nat) : List Char :=
  [' ', ' '].intercalate ((rowOrder row).map fun register => (ending.cell register).toList)

theorem toList_row (ending : Ending) (row : Nat) :
    (ending.row row).toList = rowChars ending row ++ ['\n'] := by
  have blanks : "  ".toList = [' ', ' '] := rfl
  have newline : "\n".toList = ['\n'] := rfl
  rw [Ending.row, String.toList_append, String.toList_intercalate, blanks, newline, List.map_map,
    rowChars, rowOrder, List.map_map]
  rfl

theorem tokens_rowChars (ending : Ending) (row : Nat) :
    tokens (rowChars ending row) =
      (rowOrder row).map (field ∘ registerField ending.machine.hart) := by
  have separators : ∀ c ∈ [' ', ' '], isSeparator c = true := by simp [isSeparator_blank]
  rw [rowChars, tokens_intercalate (List.cons_ne_nil _ _) separators, List.flatMap_map,
    List.map_eq_flatMap]
  exact List.flatMap_congr fun register _ => tokens_cell ending register

theorem tokens_rows (ending : Ending) :
    tokens (String.join ((List.range 8).map ending.row)).toList =
      tableOrder.map (field ∘ registerField ending.machine.hart) := by
  have rows := tokens_flatMap_lines (rowChars ending) (List.range 8)
  simp only [tokens_rowChars] at rows
  rw [String.toList_join, List.flatMap_map, tableOrder, List.map_flatMap, ← rows]
  simp only [toList_row]

theorem tokens_field_of_mem {hart : Hart} {entry : String × String}
    (member : entry ∈ headFields hart) : tokens (field entry) = [field entry] := by
  have solid : ∀ name ∈ ["pc", "cycles", "executed", "ignored"],
      ∀ c ∈ name.toList, isSeparator c = false := by simp [isSeparator, isBlank]
  apply tokens_field
  · exact solid _ (fst_of_mem_headFields member)
  · simp only [headFields, List.mem_cons, List.not_mem_nil, or_false] at member
    rcases member with rfl | rfl | rfl | rfl
    · exact fun _ => solid_hex
    all_goals exact fun _ => solid_decimal

theorem tokens_head (hart : Hart) :
    tokens ("pc=" ++ Numeral.hex 1 hart.pc.toNat ++ " " ++ hart.counters.text).toList =
      (headFields hart).map field := by
  have line : ("pc=" ++ Numeral.hex 1 hart.pc.toNat ++ " " ++ hart.counters.text).toList =
      [' '].intercalate ((headFields hart).map field) := by
    simp [Counters.text, headFields, field]
  have separators : ∀ c ∈ [' '], isSeparator c = true := by simp [isSeparator_blank]
  rw [line, tokens_intercalate (List.cons_ne_nil _ _) separators, List.flatMap_map,
    List.map_eq_flatMap]
  exact List.flatMap_congr fun _ => tokens_field_of_mem

theorem tokens_registerTable (ending : Ending) :
    tokens ending.registerTable.toList = (tableFields ending.machine.hart).map field := by
  have newline : "\n".toList = ['\n'] := rfl
  rw [Ending.registerTable, String.toList_append, String.toList_append, newline, List.append_assoc,
    List.singleton_append, tokens_append_separator (by decide), tokens_head, tokens_rows,
    tableFields, List.map_append, List.map_map]

theorem filter_key_eq_singleton {α β : Type} [DecidableEq α] [DecidableEq β] {key : α → β}
    {list : List α} (distinct : (list.map key).Nodup) {a : α} (member : a ∈ list) :
    list.filter (fun other => key other = key a) = [a] := by
  have same : list.filter (fun other => key other = key a) = list.filter (· = a) := by
    apply List.filter_congr
    intro other among
    have determined : key other = key a ↔ other = a :=
      ⟨List.inj_on_of_nodup_map distinct among member, congrArg key⟩
    simp only [determined]
  rw [same, List.filter_eq, List.count_eq_one_of_mem (.of_map key distinct) member]
  rfl

theorem isPrefixOf_field_iff {name other value : String} (free : '=' ∉ name.toList)
    (otherFree : '=' ∉ other.toList) :
    (name.toList ++ ['=']).isPrefixOf (field (other, value)) = true ↔ other = name := by
  rw [List.isPrefixOf_iff_prefix]
  constructor
  · intro ⟨rest, begins⟩
    rw [List.append_assoc, List.singleton_append] at begins
    exact (String.toList_inj.mp (append_cons_inj free otherFree begins).1).symm
  · rintro rfl
    exact ⟨value.toList, by rw [List.append_assoc, List.singleton_append]; rfl⟩

theorem equals_not_mem_tableFields {hart : Hart} {entry : String × String}
    (member : entry ∈ tableFields hart) : '=' ∉ entry.1.toList := by
  have plain : ∀ name ∈ ["pc", "cycles", "executed", "ignored"], '=' ∉ name.toList := by decide
  rcases List.mem_append.mp member with member | member
  · exact plain _ (fst_of_mem_headFields member)
  · obtain ⟨register, -, rfl⟩ := List.mem_map.mp member
    intro equals
    exact absurd (Register.mem_toList_text equals) (by decide)

theorem nodup_tableFields (hart : Hart) : ((tableFields hart).map Prod.fst).Nodup := by
  have registers : (tableOrder.map Register.text).Nodup :=
    nodup_tableOrder.map fun _ _ => Register.text_inj
  have apart : ∀ name ∈ ["pc", "cycles", "executed", "ignored"],
      name.toList.head? ≠ some 'x' := by decide
  rw [tableFields, List.map_append, List.map_map, List.nodup_append]
  refine ⟨show ["pc", "cycles", "executed", "ignored"].Nodup by decide, registers, ?_⟩
  rintro name front other back rfl
  obtain ⟨register, -, rfl⟩ := List.mem_map.mp back
  refine apart _ front ?_
  rw [Function.comp_apply, registerField, Register.toList_text]
  rfl

theorem showsOnce_of_mem {ending : Ending} {name value : String}
    (member : (name, value) ∈ tableFields ending.machine.hart) :
    ShowsOnce ending.registerTable name value := by
  have named : ∀ other ∈ tableFields ending.machine.hart,
      (name.toList ++ ['=']).isPrefixOf (field other) = decide (other.1 = name) := by
    intro other among
    rw [Bool.eq_iff_iff, decide_eq_true_iff]
    exact isPrefixOf_field_iff (equals_not_mem_tableFields member)
      (equals_not_mem_tableFields among)
  have once := filter_key_eq_singleton (nodup_tableFields ending.machine.hart) member
  rw [ShowsOnce, tokens_registerTable, List.filter_map, Function.comp_def,
    List.filter_congr named, once, List.map_singleton]

theorem tabulates_registerTable (ending : Ending) :
    Tabulates ending.registerTable ending.machine.hart := by
  have head {name value : String} (member : (name, value) ∈ headFields ending.machine.hart) :
      ShowsOnce ending.registerTable name value :=
    showsOnce_of_mem (List.mem_append_left _ member)
  have cell (register : Register) :
      registerField ending.machine.hart register ∈ tableFields ending.machine.hart :=
    List.mem_append_right _ (List.mem_map_of_mem (mem_tableOrder register))
  refine ⟨head ?_, head ?_, head ?_, head ?_, fun register => showsOnce_of_mem (cell register)⟩
  all_goals simp only [headFields, List.mem_cons, true_or, or_true]

end CommandLine

end WordHart
