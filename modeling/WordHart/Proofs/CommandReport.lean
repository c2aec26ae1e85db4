import Mathlib
import WordHart.CommandLine.Perform
import WordHart.Proofs.FileTree
import WordHart.Proofs.Options
import WordHart.Proofs.RegisterTable
import WordHart.Proofs.Retention

namespace WordHart.CommandLine

variable {tree after : FileTree} {arguments : List String} {options : Options}

/-- What becomes of a source of a program, given the files. -/
inductive Source.Yields (tree : FileTree) : Source → Except ImageError (List Word) → Prop
  | demo : Yields tree .demo (.ok [0x00000013, 0x00500113, 0x00600193, 0x003101b3])
  | inline (texts : List String) :
      Yields tree (.inline texts) (Image.parseText ("\n".intercalate texts))
  | file {path : String} {data : List UInt8} (found : tree.read path = .ok data) :
      Yields tree (.file path) (Image.parse data)
  | unreadable {path : String} {error : FileError} (failed : tree.read path = .error error) :
      Yields tree (.file path) (.error (.file error))

/-- How a run ends, with a budget or without one. -/
inductive Ends : Option (BitVec 64) → Machine → RunExit → Machine → Prop
  | limited {budget : BitVec 64} {machine final : Machine} {runExit : RunExit}
      (ran : machine.runFor budget.toNat = (runExit, final)) :
      Ends (some budget) machine runExit final
  | unlimited {machine final : Machine} (ran : machine.run = some final) :
      Ends none machine .completed final

theorem program_of_yields {source : Source} {parsed : Except ImageError (List Word)}
    (yields : source.Yields tree parsed) : source.program tree.read = parsed := by
  cases yields with
  | demo => rfl
  | inline texts => rfl
  | file found => rw [Source.program, found, Image.parseFile]
  | unreadable failed => rw [Source.program, failed, Image.parseFile]

theorem run_of_ends {machine final : Machine} {runExit : RunExit}
    (ends : Ends options.budget machine runExit final) :
    options.run machine = some (runExit, final) := by
  unfold Options.run
  generalize options.budget = budget at ends
  cases ends with
  | limited ran => exact congrArg some ran
  | unlimited ran => simp only [ran, Option.map_some]

theorem consistent_of_ends {machine final : Machine} {budget : Option (BitVec 64)}
    {runExit : RunExit} (consistent : machine.Consistent)
    (ends : Ends budget machine runExit final) : final.Consistent := by
  cases ends with
  | @limited budget _ _ _ ran =>
      have kept := consistent.runFor budget.toNat
      rwa [ran] at kept
  | unlimited ran => exact consistent.run ran

/-- What a report says of a run under some options and of the machine at its end. -/
structure Report.Describes (report : Report) (options : Options) (runExit : RunExit)
    (final : Machine) : Prop where
  exitCode : report.exitCode = 0
  stopped : ∀ budget, options.budget = some budget → runExit = .stepLimit →
    report.diagnostics = some ("Stopped after " ++ Numeral.decimal budget.toNat ++
      " steps at pc=" ++ Numeral.hex 1 final.hart.pc.toNat ++ "\n")
  silent : options.budget = none ∨ runExit = .completed → report.diagnostics = some ""
  output : ∃ table saved, report.output = "Result in " ++ options.register.text ++ ": " ++
      Numeral.decimal (final.hart.read options.register).toNat ++ "\n" ++ table ++ saved ∧
    (if options.dumpRegisters then Tabulates table final.hart else table = "") ∧
    saved = match options.snapshotPath with
      | some path => "Snapshot written to " ++ path ++ "\n"
      | none => ""

/-- The files after a machine was saved at a path, or was not saved. -/
def Saves (tree after : FileTree) (machine : Machine) : Option String → Prop
  | none => after = tree
  | some path =>
      (∃ bytes snapshot, after.read path = .ok bytes ∧ Snapshot.ofBytes bytes = .ok snapshot ∧
        Machine.ofSnapshot snapshot = .ok machine) ∧
      ∀ place, tree.target path ≠ .ok place → after.node? place = tree.node? place

theorem ofOptions_of_unread {error : ImageError}
    (yields : options.source.Yields tree (.error error)) :
    Report.ofOptions tree.read options = some (.failed (.image error)) := by
  simp only [Report.ofOptions, program_of_yields yields]

theorem ofOptions_of_refused {program : List Word} {error : LoadError}
    (yields : options.source.Yields tree (.ok program))
    (refused : ((Machine.new options.config).load program).1 = .error error) :
    Report.ofOptions tree.read options = some (.failed (.program error)) := by
  cases loaded : (Machine.new options.config).load program with
  | mk result machine =>
      rw [loaded] at refused
      cases refused
      simp only [Report.ofOptions, program_of_yields yields, loaded]

theorem ofOptions_of_ends {program : List Word} {runExit : RunExit} {final : Machine}
    (yields : options.source.Yields tree (.ok program))
    (fits : ((Machine.new options.config).load program).1 = .ok ())
    (ends : Ends options.budget ((Machine.new options.config).load program).2 runExit final) :
    Report.ofOptions tree.read options = some (.finished ⟨options, runExit, final⟩) := by
  cases loaded : (Machine.new options.config).load program with
  | mk result machine =>
      rw [loaded] at fits ends
      cases fits
      simp only [Report.ofOptions, program_of_yields yields, loaded, run_of_ends ends,
        Option.map_some]

theorem describes_finished (ending : Ending) :
    (Report.finished ending).Describes ending.options ending.runExit ending.machine := by
  refine ⟨rfl, ?_, ?_, ?_⟩
  · intro budget given limited
    simp only [Report.diagnostics, Ending.stopLine, given, limited]
  · intro unlimited
    rcases unlimited with unbudgeted | completed
    · simp only [Report.diagnostics, Ending.stopLine, unbudgeted]
      cases ending.runExit with
      | completed => rfl
      | stepLimit => rfl
    · simp only [Report.diagnostics, Ending.stopLine, completed]
  · refine ⟨if ending.options.dumpRegisters then ending.registerTable else "", ending.savedLine,
      ?_, ?_, rfl⟩
    · simp only [Report.output, Ending.stateText, Ending.resultLine]
    · split
      case isTrue => exact tabulates_registerTable ending
      case isFalse => rfl

theorem saves_write {machine : Machine} {path : String} {place : List String}
    (consistent : machine.Consistent) (found : tree.target path = .ok place)
    (written : tree.write path machine.snapshot.toBytes = .ok after) :
    Saves tree after machine (some path) := by
  refine ⟨⟨machine.snapshot.toBytes, machine.snapshot, FileTree.read_write found written,
    Snapshot.ofBytes_toBytes (Machine.sized_snapshot consistent),
    Machine.ofSnapshot_snapshot_eq_ok_iff.mpr consistent⟩, ?_⟩
  intro elsewhere apart
  apply FileTree.node?_write_of_ne found written
  rintro rfl
  exact apart found

theorem save_finished (ending : Ending) (consistent : ending.machine.Consistent)
    (writable : ∀ path, ending.options.snapshotPath = some path →
      ∃ place, tree.target path = .ok place) :
    ∃ after, save tree (.finished ending) = (.finished ending, after) ∧
      Saves tree after ending.machine ending.options.snapshotPath := by
  cases given : ending.options.snapshotPath with
  | none =>
      have nothing : (Report.finished ending).toSave = none := by
        simp only [Report.toSave, Ending.toSave, given, Option.map_none]
      exact ⟨tree, save_of_nothing nothing, rfl⟩
  | some path =>
      obtain ⟨place, found⟩ := writable path given
      have written := FileTree.write_of_target found ending.machine.snapshot.toBytes
      have asked : (Report.finished ending).toSave =
          some (path, ending.machine.snapshot.toBytes) := by
        simp only [Report.toSave, Ending.toSave, given, Option.map_some]
      exact ⟨_, save_of_written asked written, saves_write consistent found written⟩

theorem perform_of_accepted (accepted : Options.ofArguments? arguments = some options) :
    perform tree arguments = (Report.ofOptions tree.read options).map (save tree) := by
  rw [perform_eq, Report.ofArguments, accepted]

theorem perform_of_failed {failure : Failure}
    (accepted : Options.ofArguments? arguments = some options)
    (reported : Report.ofOptions tree.read options = some (.failed failure)) :
    ∃ report, perform tree arguments = some (report, tree) ∧ report.exitCode = 1 ∧
      report.output = "" := by
  rw [perform_of_accepted accepted, reported]
  exact ⟨.failed failure, rfl, rfl, rfl⟩

/-- The command line reports the machine that its options lead to, or that there is none. -/
theorem perform_reports_final_machine (tree : FileTree) (arguments : List String)
    (options : Options) (accepted : Options.ofArguments? arguments = some options) :
    (∃ items, items? arguments = some items ∧ options.Selected items) ∧
    (∀ error, options.source.Yields tree (.error error) →
      ∃ report, perform tree arguments = some (report, tree) ∧ report.exitCode = 1 ∧
        report.output = "") ∧
    (∀ program, options.source.Yields tree (.ok program) →
      let loaded := (Machine.new options.config).load program
      (∀ error, loaded.1 = .error error →
        ∃ report, perform tree arguments = some (report, tree) ∧ report.exitCode = 1 ∧
          report.output = "") ∧
      (loaded.1 = .ok () → ∀ runExit final, Ends options.budget loaded.2 runExit final →
        (∀ path, options.snapshotPath = some path → ∃ place, tree.target path = .ok place) →
        ∃ report after, perform tree arguments = some (report, after) ∧
          report.Describes options runExit final ∧
          Saves tree after final options.snapshotPath)) := by
  refine ⟨selected_of_ofArguments? accepted, ?_, ?_⟩
  · intro error yields
    exact perform_of_failed accepted (ofOptions_of_unread yields)
  · intro program yields loaded
    refine ⟨?_, ?_⟩
    · intro error refused
      exact perform_of_failed accepted (ofOptions_of_refused yields refused)
    · intro fits runExit final ends writable
      have started : loaded.2.Consistent :=
        (Machine.consistent_new options.config).load program
      obtain ⟨after, saved, saves⟩ := save_finished ⟨options, runExit, final⟩
        (consistent_of_ends started ends) writable
      rw [perform_of_accepted accepted, ofOptions_of_ends yields fits ends, Option.map_some, saved]
      exact ⟨_, after, rfl, describes_finished ⟨options, runExit, final⟩, saves⟩

theorem perform_reports_final_machine_stopped :
    (∃ report after, perform ⟨[]⟩ ["--max-steps", "2", "--mem-words=4", "--snapshot-out", "out"] =
        some (report, after) ∧
      report.diagnostics = some "Stopped after 2 steps at pc=0x2\n" ∧
      ∃ bytes, after.read "out" = .ok bytes) ∧
    ∃ report, perform ⟨[]⟩ ["-p", "missing", "--snapshot-out", "out"] = some (report, ⟨[]⟩) ∧
      report.exitCode = 1 ∧ report.output = "" := by
  refine ⟨?_, ?_⟩
  · let options : Options :=
      { config := ⟨4, {}⟩, budget := some 2, snapshotPath := some "out" }
    have accepted : Options.ofArguments?
        ["--max-steps", "2", "--mem-words=4", "--snapshot-out", "out"] = some options := by decide
    let loaded := ((Machine.new options.config).load demoProgram).2
    have ends : Ends options.budget loaded .stepLimit (loaded.runFor 2).2 := .limited (by decide)
    have writable : ∀ path, options.snapshotPath = some path →
        ∃ place, FileTree.target ⟨[]⟩ path = .ok place := by
      intro path given
      cases given
      exact ⟨["out"], by decide⟩
    obtain ⟨report, after, performed, describes, saves⟩ :=
      ((perform_reports_final_machine ⟨[]⟩ _ options accepted).2.2 demoProgram .demo).2
        (by decide) _ _ ends writable
    obtain ⟨⟨bytes, -, saved, -⟩, -⟩ := saves
    have counter : (loaded.runFor 2).2.hart.pc = 2 := by decide
    have stopped := describes.stopped 2 rfl rfl
    rw [counter] at stopped
    exact ⟨report, after, performed, stopped, bytes, saved⟩
  · have accepted : Options.ofArguments? ["-p", "missing", "--snapshot-out", "out"] =
        some { source := .file "missing", snapshotPath := some "out" } := by decide
    have absent : FileTree.read ⟨[]⟩ "missing" = .error .notFound := by decide
    exact (perform_reports_final_machine ⟨[]⟩ _ _ accepted).2.1 _ (.unreadable absent)

end WordHart.CommandLine
