import WordHart.CommandLine.Report
import WordHart.File.Tree

/-!
The command line reads at most one file and writes at most one. Both are done by
a `Files` that it is given: a program works on the files of its system, and what
it does is stated for those of a tree. Its logger is left out: it prints nothing
unless an environment variable asks for it, which counts as unset.
-/

namespace WordHart.CommandLine

/-- How files are read and written as a whole. -/
structure Files (m : Type → Type) where
  read : String → m (Except FileError (List UInt8))
  write : String → List UInt8 → m (Except FileError Unit)

/-- The file that a source names, if it names one. -/
def Source.file? : Source → Option String
  | file path => some path
  | _ => none

namespace Files

variable {m : Type → Type} [Monad m]

/-- What comes of reading the file that the arguments name as the program, if they name one. -/
def readProgram (files : Files m) (arguments : List String) : m (Except FileError (List UInt8)) :=
  match (Options.ofArguments? arguments).bind (·.source.file?) with
  | some path => files.read path
  | none => pure (.error .notFound)

/-- Save what a report asks for, and return the report after that. -/
def save (files : Files m) (report : Report) : m Report :=
  match report.toSave with
  | none => pure report
  | some (path, data) => do
      match ← files.write path data with
      | .ok () => return report
      | .error error => return report.saveFailed error

/-- Carry out the command line; there is no report if the run does not end. -/
def perform (files : Files m) (arguments : List String) : m (Option Report) := do
  let program ← files.readProgram arguments
  match Report.ofArguments (fun _ => program) arguments with
  | some report => some <$> files.save report
  | none => return none

/-- The files of a tree. Only a file that could be written changes it. -/
def ofTree : Files (StateM FileTree) where
  read path := fun tree => (tree.read path, tree)
  write path data := fun tree =>
    match tree.write path data with
    | .ok after => (.ok (), after)
    | .error error => (.error error, tree)

end Files

def save (tree : FileTree) (report : Report) : Report × FileTree := Files.ofTree.save report tree

/-- Carry out the command line on the files of a tree. -/
def perform (tree : FileTree) (arguments : List String) : Option (Report × FileTree) :=
  let (report, after) := Files.ofTree.perform arguments tree
  report.map (·, after)

variable {tree after : FileTree} {report : Report} {path : String} {data : List UInt8}

theorem save_of_nothing (nothing : report.toSave = none) : save tree report = (report, tree) := by
  simp only [save, Files.save, nothing]
  rfl

theorem save_of_written (asked : report.toSave = some (path, data))
    (written : tree.write path data = .ok after) : save tree report = (report, after) := by
  simp only [save, Files.save, asked, Files.ofTree, bind, StateT.bind, written]
  rfl

theorem save_of_refused {error : FileError} (asked : report.toSave = some (path, data))
    (refused : tree.write path data = .error error) :
    save tree report = (report.saveFailed error, tree) := by
  simp only [save, Files.save, asked, Files.ofTree, bind, StateT.bind, refused]
  rfl

/-- What comes of some options depends on no file but the one that their source names. -/
theorem ofOptions_congr {read other : String → Except FileError (List UInt8)} {options : Options}
    (same : ∀ path, options.source.file? = some path → read path = other path) :
    Report.ofOptions read options = Report.ofOptions other options := by
  have program : options.source.program read = options.source.program other := by
    cases source : options.source with
    | demo => rfl
    | inline texts => rfl
    | file path =>
        have found := same path (congrArg Source.file? source)
        rw [Source.program, Source.program, found]
  rw [Report.ofOptions, Report.ofOptions, program]

theorem readProgram_ofTree (tree : FileTree) (arguments : List String) :
    ∃ program, Files.ofTree.readProgram arguments tree = (program, tree) ∧
      Report.ofArguments (fun _ => program) arguments = Report.ofArguments tree.read arguments := by
  simp only [Files.readProgram, Report.ofArguments]
  cases Options.ofArguments? arguments with
  | none => exact ⟨_, rfl, rfl⟩
  | some options =>
      rw [Option.bind_some]
      cases named : options.source.file? with
      | none => exact ⟨_, rfl, ofOptions_congr (by simp [named])⟩
      | some path => exact ⟨tree.read path, rfl, ofOptions_congr (by simp [named])⟩

theorem perform_eq (tree : FileTree) (arguments : List String) :
    perform tree arguments = (Report.ofArguments tree.read arguments).map (save tree) := by
  obtain ⟨program, read, same⟩ := readProgram_ofTree tree arguments
  simp only [perform, Files.perform, bind, StateT.bind, read, same]
  cases Report.ofArguments tree.read arguments <;> rfl

end WordHart.CommandLine
