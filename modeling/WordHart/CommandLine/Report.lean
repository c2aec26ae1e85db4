import WordHart.CommandLine.Options
import WordHart.Image.Program
import WordHart.Machine.Restore
import WordHart.Machine.Run
import WordHart.Snapshot.Codec

namespace WordHart.CommandLine

inductive Failure where
  | image (error : ImageError)
  | program (error : LoadError)
  deriving DecidableEq

def Failure.recordText : Failure → String
  | image error => error.recordText
  | program (.tooLarge words capacity) =>
      "ProgramTooLarge \x7b words: " ++ Numeral.decimal words ++ ", capacity: " ++
        Numeral.decimal capacity ++ " \x7d"
  | program (.memory (.outOfBounds index)) =>
      "Memory(OutOfBounds(" ++ Numeral.decimal index ++ "))"

structure Ending where
  options : Options
  runExit : RunExit
  machine : Machine
  deriving DecidableEq

inductive Report where
  | usage
  | failed (failure : Failure)
  | finished (ending : Ending)
  /-- The run ended, but its snapshot could not be saved. -/
  | unsaved (ending : Ending) (error : FileError)
  deriving DecidableEq

/-- The built-in program: it adds five and six. -/
def demoProgram : List Word := [0x00000013, 0x00500113, 0x00600193, 0x003101b3]

def Source.program (read : String → Except FileError (List UInt8)) :
    Source → Except ImageError (List Word)
  | demo => .ok demoProgram
  | inline texts => Image.parseText ("\n".intercalate texts)
  | file path => Image.parseFile (read path)

/-- Run a machine as the options ask, if the run ends. -/
def Options.run (options : Options) (machine : Machine) : Option (RunExit × Machine) :=
  match options.budget with
  | some budget => some (machine.runFor budget.toNat)
  | none => machine.run.map fun final => (.completed, final)

namespace Ending

def stopLine (ending : Ending) : String :=
  match ending.runExit, ending.options.budget with
  | .stepLimit, some budget =>
      "Stopped after " ++ Numeral.decimal budget.toNat ++ " steps at pc=" ++
        Numeral.hex 1 ending.machine.hart.pc.toNat ++ "\n"
  | _, _ => ""

def resultLine (ending : Ending) : String :=
  let register := ending.options.register
  "Result in " ++ register.text ++ ": " ++
    Numeral.decimal (ending.machine.hart.read register).toNat ++ "\n"

def cell (ending : Ending) (register : Register) : String :=
  String.ofList (register.text.toList.leftpad 4 ' ') ++ "=" ++
    Numeral.hex 8 (ending.machine.hart.read register).toNat

/-- A row of the register table: every eighth register from the given one on. -/
def row (ending : Ending) (first : Nat) : String :=
  "  ".intercalate ((List.range 4).map fun column => ending.cell (.ofNat (first + 8 * column))) ++
    "\n"

def registerTable (ending : Ending) : String :=
  let hart := ending.machine.hart
  "pc=" ++ Numeral.hex 1 hart.pc.toNat ++ " " ++ hart.counters.text ++ "\n" ++
    String.join ((List.range 8).map ending.row)

def stateText (ending : Ending) : String :=
  ending.resultLine ++ if ending.options.dumpRegisters then ending.registerTable else ""

def savedLine (ending : Ending) : String :=
  match ending.options.snapshotPath with
  | some path => "Snapshot written to " ++ path ++ "\n"
  | none => ""

def toSave (ending : Ending) : Option (String × List UInt8) :=
  ending.options.snapshotPath.map fun path => (path, ending.machine.snapshot.toBytes)

end Ending

namespace Report

/-- The report on some options, as far as saving; there is none if the run does not end. -/
def ofOptions (read : String → Except FileError (List UInt8)) (options : Options) :
    Option Report :=
  match options.source.program read with
  | .error error => some (.failed (.image error))
  | .ok program =>
      match (Machine.new options.config).load program with
      | (.error error, _) => some (.failed (.program error))
      | (.ok (), machine) =>
          (options.run machine).map fun (runExit, final) => .finished ⟨options, runExit, final⟩

/-- The report on a list of arguments, as far as saving. -/
def ofArguments (read : String → Except FileError (List UInt8)) (arguments : List String) :
    Option Report :=
  match Options.ofArguments? arguments with
  | none => some .usage
  | some options => ofOptions read options

def toSave : Report → Option (String × List UInt8)
  | finished ending => ending.toSave
  | _ => none

def saveFailed (error : FileError) : Report → Report
  | finished ending => unsaved ending error
  | report => report

def exitCode : Report → UInt32
  | finished _ => 0
  | failed _ => 1
  | unsaved _ _ => 1
  | usage => 2

def output : Report → String
  | finished ending => ending.stateText ++ ending.savedLine
  | unsaved ending _ => ending.stateText
  | failed _ => ""
  | usage => ""

/-- What goes to standard error. The usage message is left to whoever shows the report. -/
def diagnostics : Report → Option String
  | finished ending => some ending.stopLine
  | unsaved ending error => some (ending.stopLine ++ "Error: " ++ error.recordText ++ "\n")
  | failed failure => some ("Error: " ++ failure.recordText ++ "\n")
  | usage => none

end Report

end WordHart.CommandLine
