import Mathlib
import WordHart.Proofs.CommandReport
import WordHart.Proofs.ImageDetection

namespace WordHart

namespace Image

/-- A character that takes up one byte, which is a text byte. -/
def IsTextCharacter (c : Char) : Prop :=
  0x21 ≤ c.toNat ∧ c.toNat ≤ 0x7e ∨ c ∈ [' ', '\t', '\n', '\x0c', '\r']

instance (c : Char) : Decidable (IsTextCharacter c) := inferInstanceAs (Decidable (_ ∨ _))

theorem exists_byte {c : Char} (plain : IsTextCharacter c) :
    ∃ byte : UInt8, Char.ofNat byte.toNat = c ∧ IsText byte := by
  refine ⟨UInt8.ofNat c.toNat, ?_⟩
  rcases plain with ⟨above, below⟩ | blank
  · have fits : (UInt8.ofNat c.toNat).toNat = c.toNat := by
      rw [UInt8.toNat_ofNat']
      omega
    rw [IsText, fits]
    exact ⟨Char.ofNat_toNat c, .inl ⟨above, below⟩⟩
  · simp only [List.mem_cons, List.not_mem_nil, or_false] at blank
    rcases blank with rfl | rfl | rfl | rfl | rfl <;> decide

theorem exists_bytes {chars : List Char} (plain : ∀ c ∈ chars, IsTextCharacter c) :
    ∃ data, ofAscii data = chars ∧ ∀ byte ∈ data, IsText byte := by
  induction chars with
  | nil => exact ⟨[], rfl, List.forall_mem_nil _⟩
  | cons c chars inductionHypothesis =>
      obtain ⟨own, later⟩ := List.forall_mem_cons.mp plain
      obtain ⟨byte, rfl, text⟩ := exists_byte own
      obtain ⟨data, rfl, texts⟩ := inductionHypothesis later
      exact ⟨byte :: data, rfl, List.forall_mem_cons.mpr ⟨text, texts⟩⟩

/-- A file that holds a text is read as that text is. -/
theorem parse_encode {text : String} (plain : ∀ c ∈ text.toList, IsTextCharacter c) :
    parse (Utf8.encode text) = parseText text := by
  obtain ⟨data, characters, bytes⟩ := exists_bytes plain
  have written : Utf8.encode text = data := by
    rw [← encode_ofAscii bytes, characters, String.ofList_toList]
  rw [written, parse_of_isText bytes, characters, parseText]

theorem isTextCharacter_intercalate {texts : List String}
    (plain : ∀ text ∈ texts, ∀ c ∈ text.toList, IsTextCharacter c) :
    ∀ c ∈ ("\n".intercalate texts).toList, IsTextCharacter c := by
  induction texts with
  | nil => exact List.forall_mem_nil _
  | cons text texts inductionHypothesis =>
      obtain ⟨own, later⟩ := List.forall_mem_cons.mp plain
      by_cases last : texts = []
      · rwa [last, String.intercalate_singleton]
      · intro c member
        rw [String.intercalate_cons_of_ne_nil last, String.toList_append, String.toList_append,
          List.mem_append, List.mem_append] at member
        rcases member with (first | newline) | rest
        · exact own c first
        · rw [List.mem_singleton.mp newline]
          decide
        · exact inductionHypothesis later c rest

end Image

namespace CommandLine

variable {tree : FileTree} {arguments : List String} {items left right : List Item}
  {options : Options} {source : Source}

/-- Whether an item says which program is to be run. -/
def Item.choosesProgram : Item → Bool
  | setting .program _ => true
  | setting .word _ => true
  | _ => false

/-- The items that say anything else. -/
def otherItems (items : List Item) : List Item := items.filter fun item => !item.choosesProgram

theorem valuesOf_otherItems {setting : Setting} (other : setting ≠ .program ∧ setting ≠ .word) :
    valuesOf setting (otherItems items) = valuesOf setting items := by
  rw [otherItems, valuesOf, List.filterMap_filter]
  apply List.filterMap_congr
  intro item _
  cases item with
  | switch switch => rfl
  | setting given value =>
      cases given with
      | program => simp [other.1.symm]
      | word => simp [other.2.symm]
      | _ => rfl

theorem count_otherItems (switch : Switch) :
    (otherItems items).count (.switch switch) = items.count (.switch switch) :=
  List.count_filter rfl

theorem atMostOne_congr (same : otherItems right = otherItems left) (setting : Setting)
    (other : setting ≠ .program ∧ setting ≠ .word) :
    atMostOne setting right = atMostOne setting left := by
  rw [atMostOne, atMostOne, ← valuesOf_otherItems other, same, valuesOf_otherItems other]

theorem isGiven_congr (same : otherItems right = otherItems left) (switch : Switch) :
    isGiven switch right = isGiven switch left := by
  rw [isGiven, isGiven, ← count_otherItems switch, same, count_otherItems]

/-- The source of the program that items select. -/
def Source.ofItems? (items : List Item) : Option Source := do
  let program ← atMostOne .program items
  let path ← program.mapM path?
  Source.select? path (valuesOf .word items)

theorem ofItems?_of_source (selected : Source.ofItems? items = some source) :
    ∃ program path, atMostOne .program items = some program ∧ program.mapM path? = some path ∧
      Source.select? path (valuesOf .word items) = some source := by
  obtain ⟨program, once, selected⟩ := Option.bind_eq_some_iff.mp selected
  obtain ⟨path, taken, selected⟩ := Option.bind_eq_some_iff.mp selected
  exact ⟨program, path, once, taken, selected⟩

theorem bind_eq_map_bind {α β γ : Type} {rename : β → γ} {value : Option α}
    {before : α → Option β} {after : α → Option γ} (each : ∀ a, after a = (before a).map rename) :
    value.bind after = (value.bind before).map rename := by
  rw [Option.map_bind, funext each]
  rfl

/-- Items that differ in the program alone yield options that differ in the source alone. -/
theorem ofItems?_congr {other : Source} (same : otherItems right = otherItems left)
    (leftSource : Source.ofItems? left = some other)
    (rightSource : Source.ofItems? right = some source) :
    Options.ofItems? right =
      (Options.ofItems? left).map fun options => { options with source } := by
  obtain ⟨leftProgram, leftPath, leftOnce, leftTaken, leftSelected⟩ := ofItems?_of_source leftSource
  obtain ⟨program, path, once, taken, selected⟩ := ofItems?_of_source rightSource
  unfold Options.ofItems?
  rw [leftOnce, once, atMostOne_congr same .memoryWords (by decide),
    atMostOne_congr same .maxSteps (by decide), atMostOne_congr same .register (by decide),
    atMostOne_congr same .snapshotPath (by decide), isGiven_congr same .hardwireX0,
    isGiven_congr same .jalrReadsRs1First, isGiven_congr same .dumpRegisters]
  -- The source is found first, and every value after it is read alike on both sides.
  change (program.mapM path? >>= _) = (leftProgram.mapM path? >>= _).map _
  rw [leftTaken, taken]
  change (Source.select? path (valuesOf .word right) >>= _) =
    (Source.select? leftPath (valuesOf .word left) >>= _).map _
  rw [leftSelected, selected]
  change (atMostOne .memoryWords left >>= _) = (atMostOne .memoryWords left >>= _).map _
  repeat refine bind_eq_map_bind fun _ => ?_
  rfl

theorem source_of_ofItems? (selected : Source.ofItems? items = some source)
    (made : Options.ofItems? items = some options) : options.source = source := by
  have same := ofItems?_congr rfl selected selected
  rw [made, Option.map_some] at same
  exact congrArg Options.source (Option.some.inj same)

/-- The same report with another source of the program. -/
def Report.withSource (source : Source) : Report → Report
  | usage => usage
  | failed failure => failed failure
  | finished ending => finished { ending with options.source := source }
  | unsaved ending error => unsaved { ending with options.source := source } error

/-- What the command line leaves behind: its exit code, its two outputs and the files. -/
structure Effect where
  exitCode : UInt32
  output : String
  diagnostics : Option String
  files : FileTree
  deriving DecidableEq

def Effect.of (done : Report × FileTree) : Effect :=
  ⟨done.1.exitCode, done.1.output, done.1.diagnostics, done.2⟩

theorem ofOptions_withSource {read : String → Except FileError (List UInt8)}
    (same : source.program read = options.source.program read) :
    Report.ofOptions read { options with source } =
      (Report.ofOptions read options).map (.withSource source) := by
  unfold Report.ofOptions
  rw [same]
  cases options.source.program read with
  | error error => rfl
  | ok program =>
      cases loaded : (Machine.new options.config).load program with
      | mk result machine =>
          cases result with
          | error error =>
              simp only [loaded]
              rfl
          | ok =>
              simp only [loaded, Option.map_map]
              rfl

/-- Nothing that is seen of a report depends on where the program has come from. -/
theorem effect_withSource (tree : FileTree) (report : Report) :
    Effect.of (save tree (report.withSource source)) = Effect.of (save tree report) := by
  cases report with
  | usage | failed | unsaved => rfl
  | finished ending =>
      have same : ((Report.finished ending).withSource source).toSave =
          (Report.finished ending).toSave := rfl
      cases asked : (Report.finished ending).toSave with
      | none =>
          rw [save_of_nothing (same.trans asked), save_of_nothing asked]
          rfl
      | some file =>
          obtain ⟨path, data⟩ := file
          cases written : tree.write path data with
          | ok after =>
              rw [save_of_written (same.trans asked) written, save_of_written asked written]
              rfl
          | error error =>
              rw [save_of_refused (same.trans asked) written, save_of_refused asked written]
              rfl

theorem perform_of_items (read : items? arguments = some items) :
    perform tree arguments =
      ((Options.ofItems? items).elim (some .usage) (Report.ofOptions tree.read)).map
        (save tree) := by
  rw [perform_eq, Report.ofArguments, Options.ofArguments?, read, Option.bind_eq_bind,
    Option.bind_some]
  cases Options.ofItems? items <;> rfl

theorem perform_of_no_items (refused : items? arguments = none) :
    perform tree arguments = some (.usage, tree) := by
  rw [perform_eq, Report.ofArguments, Options.ofArguments?, refused]
  rfl

/-- Command lines that differ in the program alone have the same effect if both ways lead to the
same program. -/
theorem effect_perform_congr {other : Source} {first second : List String}
    (leftRead : items? first = some left) (rightRead : items? second = some right)
    (same : otherItems right = otherItems left) (leftSource : Source.ofItems? left = some other)
    (rightSource : Source.ofItems? right = some source)
    (programs : source.program tree.read = other.program tree.read) :
    (perform tree second).map Effect.of = (perform tree first).map Effect.of := by
  rw [perform_of_items leftRead, perform_of_items rightRead,
    ofItems?_congr same leftSource rightSource]
  cases made : Options.ofItems? left with
  | none => rfl
  | some options =>
      rw [← source_of_ofItems? leftSource made] at programs
      rw [Option.map_some, Option.elim_some, Option.elim_some, ofOptions_withSource programs,
        Option.map_map, Option.map_map, Option.map_map]
      congr 1
      funext report
      exact effect_withSource tree report

theorem ofItems?_of_inline {texts : List String} (given : Source.Given items (.inline texts)) :
    Source.ofItems? items = some (.inline texts) := by
  obtain ⟨noProgram, words, someWords⟩ := given
  obtain ⟨text, more, rfl⟩ := List.exists_cons_of_ne_nil someWords
  simp [Source.ofItems?, atMostOne, noProgram, words, Source.select?]

theorem ofItems?_of_file {path : String} (given : Source.Given items (.file path))
    (named : path ≠ "") : Source.ofItems? items = some (.file path) := by
  obtain ⟨program, noWords⟩ := given
  simp [Source.ofItems?, atMostOne, program, noWords, path?, named, Source.select?]

theorem ne_empty_of_read {path : String} {data : List UInt8} (stored : tree.read path = .ok data) :
    path ≠ "" := by
  rintro rfl
  have root : tree.read "" = .error .isDirectory := rfl
  rw [root] at stored
  contradiction

theorem program_file_eq_inline {texts : List String} {path : String}
    (plain : ∀ text ∈ texts, ∀ c ∈ text.toList, Image.IsTextCharacter c)
    (stored : tree.read path = .ok (Utf8.encode ("\n".intercalate texts))) :
    (Source.file path).program tree.read = (Source.inline texts).program tree.read := by
  rw [Source.program, Source.program, stored]
  exact Image.parse_encode (Image.isTextCharacter_intercalate plain)

theorem effect_of_given {texts : List String} {path : String} {inline file : List String}
    (plain : ∀ text ∈ texts, ∀ c ∈ text.toList, Image.IsTextCharacter c)
    (stored : tree.read path = .ok (Utf8.encode ("\n".intercalate texts)))
    (inlineRead : items? inline = some left) (words : Source.Given left (.inline texts))
    (fileRead : items? file = some right) (program : Source.Given right (.file path))
    (same : otherItems left = otherItems right) :
    (perform tree inline).map Effect.of = (perform tree file).map Effect.of :=
  effect_perform_congr fileRead inlineRead same
    (ofItems?_of_file program (ne_empty_of_read stored)) (ofItems?_of_inline words)
    (program_file_eq_inline plain stored).symm

theorem items?_words {texts : List String} (accepted : ∀ text ∈ texts, isValue text = true)
    (others : List String) :
    items? (texts.flatMap (["-w", ·]) ++ others) =
      (items? others).map (texts.map (.setting .word) ++ ·) := by
  induction texts with
  | nil => simp
  | cons text texts inductionHypothesis =>
      obtain ⟨own, later⟩ := List.forall_mem_cons.mp accepted
      have awaiting : Argument.ofText "-w" = .awaiting .word := rfl
      simp [items?, awaiting, own, inductionHypothesis later, Function.comp_def]

theorem items?_program {path : String} (accepted : isValue path = true) (others : List String) :
    items? ("-p" :: path :: others) = (items? others).map (.setting .program path :: ·) := by
  have awaiting : Argument.ofText "-p" = .awaiting .program := rfl
  simp [items?, awaiting, accepted]

theorem valuesOf_append (setting : Setting) (front back : List Item) :
    valuesOf setting (front ++ back) = valuesOf setting front ++ valuesOf setting back :=
  List.filterMap_append

theorem valuesOf_words (setting : Setting) (texts : List String) :
    valuesOf setting (texts.map (.setting .word)) = if setting = .word then texts else [] := by
  rw [valuesOf, List.filterMap_map]
  cases setting <;> simp

theorem given_words {texts : List String} (someWords : texts ≠ [])
    (noProgram : valuesOf .program items = []) (noWords : valuesOf .word items = []) :
    Source.Given (texts.map (.setting .word) ++ items) (.inline texts) := by
  refine ⟨?_, ?_, someWords⟩
  · rw [valuesOf_append, noProgram, List.append_nil, valuesOf_words]
    rfl
  · rw [valuesOf_append, noWords, List.append_nil, valuesOf_words]
    rfl

theorem given_program (path : String) (noProgram : valuesOf .program items = [])
    (noWords : valuesOf .word items = []) :
    Source.Given (.setting .program path :: items) (.file path) :=
  ⟨congrArg (path :: ·) noProgram, noWords⟩

theorem otherItems_words (texts : List String) (items : List Item) :
    otherItems (texts.map (.setting .word) ++ items) = otherItems items := by
  induction texts with
  | nil => rfl
  | cons text texts inductionHypothesis => exact inductionHypothesis

/-- Words of text characters have the same effect on the command line as in a file, one to a line,
whatever else is asked for. -/
theorem effect_inline_eq_effect_file (tree : FileTree) (texts : List String) (path : String)
    (plain : ∀ text ∈ texts, ∀ c ∈ text.toList, Image.IsTextCharacter c)
    (stored : tree.read path = .ok (Utf8.encode ("\n".intercalate texts))) :
    (∀ inline file inlineItems fileItems,
      items? inline = some inlineItems → Source.Given inlineItems (.inline texts) →
      items? file = some fileItems → Source.Given fileItems (.file path) →
      otherItems inlineItems = otherItems fileItems →
      (perform tree inline).map Effect.of = (perform tree file).map Effect.of) ∧
    ∀ others, texts ≠ [] → (∀ text ∈ texts, isValue text = true) → isValue path = true →
      (∀ items, items? others = some items →
        valuesOf .program items = [] ∧ valuesOf .word items = []) →
      (perform tree (texts.flatMap (["-w", ·]) ++ others)).map Effect.of =
        (perform tree ("-p" :: path :: others)).map Effect.of := by
  refine ⟨fun inline file inlineItems fileItems inlineRead words fileRead program same => ?_,
    fun others someWords accepted named settings => ?_⟩
  · exact effect_of_given plain stored inlineRead words fileRead program same
  · have wordsRead := items?_words accepted others
    have programRead := items?_program named others
    cases read : items? others with
    | none =>
        rw [read] at wordsRead programRead
        rw [perform_of_no_items wordsRead, perform_of_no_items programRead]
    | some items =>
        rw [read] at wordsRead programRead
        obtain ⟨noProgram, noWords⟩ := settings items read
        exact effect_of_given plain stored wordsRead (given_words someWords noProgram noWords)
          programRead (given_program path noProgram noWords) (otherItems_words texts items)

theorem effect_inline_eq_effect_file_no_digits :
    let tree : FileTree := ⟨[(["p"], .file (Utf8.encode "13 #a\n0x"))]⟩
    let inline := ["-w", "13 #a", "-w", "0x", "-r", "2"]
    (perform tree inline).map Effect.of = (perform tree ["-r2", "--program=p"]).map Effect.of ∧
      (perform tree inline).map Effect.of =
        (perform tree ["-p", "p", "-r", "2"]).map Effect.of ∧
      (perform tree inline).map Effect.of =
        some ⟨1, "", "Error: InvalidWord \x7b line: 2, token: \"0x\" \x7d\n", tree⟩ := by
  intro tree inline
  have inlineRead : items? inline =
    some [.setting .word "13 #a", .setting .word "0x", .setting .register "2"] := by decide
  have fileRead : items? ["-r2", "--program=p"] =
    some [.setting .register "2", .setting .program "p"] := by decide
  obtain ⟨every, separate⟩ := effect_inline_eq_effect_file tree ["13 #a", "0x"] "p"
    (by simp [Image.IsTextCharacter]) (by decide)
  refine ⟨?_, ?_, by decide +kernel⟩
  · exact every inline _ _ _ inlineRead ⟨rfl, rfl, List.cons_ne_nil _ _⟩ fileRead ⟨rfl, rfl⟩ rfl
  · refine separate ["-r", "2"] (List.cons_ne_nil _ _) (by decide) (by decide) fun items read => ?_
    cases read
    exact ⟨rfl, rfl⟩

end CommandLine

end WordHart
