import WordHart.Config
import WordHart.Register

/-!
The arguments of the command line are first taken for items, each a switch or a
setting with its value, and the items are then gathered into options. A value
stands in the same argument, behind `=` or directly behind a short name, or in
the next argument, which then may not look like an option itself. A switch or a
setting may stand once, but for the inline words, which add up. There are no
free arguments.
-/

namespace WordHart.CommandLine

inductive Switch where
  | hardwireX0
  | jalrReadsRs1First
  | dumpRegisters
  deriving DecidableEq

inductive Setting where
  | program
  | word
  | memoryWords
  | maxSteps
  | register
  | snapshotPath
  deriving DecidableEq

inductive Item where
  | switch (switch : Switch)
  | setting (setting : Setting) (value : String)
  deriving DecidableEq

def Switch.named? (name : String) : Option Switch :=
  if name = "hardwire-x0" then some hardwireX0
  else if name = "jalr-reads-rs1-first" then some jalrReadsRs1First
  else if name = "dump-regs" then some dumpRegisters
  else none

def Setting.named? (name : String) : Option Setting :=
  if name = "program" then some program
  else if name = "word" then some word
  else if name = "mem-words" then some memoryWords
  else if name = "max-steps" then some maxSteps
  else if name = "reg" then some register
  else if name = "snapshot-out" then some snapshotPath
  else none

def Setting.short? (name : Char) : Option Setting :=
  if name = 'p' then some program
  else if name = 'w' then some word
  else if name = 'r' then some register
  else none

inductive Argument where
  /-- Two hyphens: no option follows. -/
  | endOfOptions
  | item (item : Item)
  | awaiting (setting : Setting)
  | invalid
  deriving DecidableEq

namespace Argument

/-- An argument that begins with two hyphens, without them. -/
def ofLong (body : List Char) : Argument :=
  let (name, rest) := body.span (· ≠ '=')
  let name := String.ofList name
  match Switch.named? name, Setting.named? name, rest with
  | some switch, _, [] => .item (.switch switch)
  | none, some setting, [] => .awaiting setting
  | none, some setting, _ :: value => .item (.setting setting (String.ofList value))
  | _, _, _ => .invalid

/-- An argument that begins with one hyphen: its second character and what follows. -/
def ofShort (name : Char) (rest : List Char) : Argument :=
  match Setting.short? name, rest with
  | none, _ => .invalid
  | some setting, [] => .awaiting setting
  | some setting, '=' :: value => .item (.setting setting (String.ofList value))
  | some setting, value => .item (.setting setting (String.ofList value))

def ofText (text : String) : Argument :=
  match text.toList with
  | ['-', '-'] => .endOfOptions
  | '-' :: '-' :: body => ofLong body
  | '-' :: name :: rest => ofShort name rest
  | _ => .invalid

end Argument

/-- Whether an argument can be the value of the setting before it: a hyphen may only stand alone. -/
def isValue (argument : String) : Bool :=
  match argument.toList with
  | '-' :: _ :: _ => false
  | _ => true

def items? : List String → Option (List Item)
  | [] => some []
  | argument :: rest =>
      match Argument.ofText argument with
      | .endOfOptions => if rest.isEmpty then some [] else none
      | .item item => (item :: ·) <$> items? rest
      | .awaiting setting =>
          match rest with
          | value :: rest =>
              if isValue value then (.setting setting value :: ·) <$> items? rest else none
          | [] => none
      | .invalid => none

def valuesOf (setting : Setting) (items : List Item) : List String :=
  items.filterMap fun
    | .setting given value => if given = setting then some value else none
    | .switch _ => none

def atMostOne (setting : Setting) (items : List Item) : Option (Option String) :=
  match valuesOf setting items with
  | [] => some none
  | [value] => some (some value)
  | _ => none

def isGiven (switch : Switch) (items : List Item) : Option Bool :=
  match items.count (.switch switch) with
  | 0 => some false
  | 1 => some true
  | _ => none

def long? (text : String) : Option (BitVec 64) := do
  let digits := match text.toList with
    | '+' :: rest => rest
    | chars => chars
  let value ← Numeral.natural? digits
  let wrapped := BitVec.ofNat 64 value
  if wrapped.toNat = value then some wrapped else none

def register? (text : String) : Option Register := do
  let (limit, digits) := match text.toList with
    | '+' :: rest => (32, rest)
    | '-' :: rest => (1, rest)
    | chars => (32, chars)
  let value ← Numeral.natural? digits
  if value < limit then some (.ofNat value) else none

def path? (text : String) : Option String := if text = "" then none else some text

inductive Source where
  | demo
  | inline (texts : List String)
  | file (path : String)
  deriving DecidableEq

structure Options where
  source : Source := .demo
  config : Config := {}
  budget : Option (BitVec 64) := none
  /-- The register whose final value is shown. -/
  register : Register := .ofNat 3
  dumpRegisters : Bool := false
  snapshotPath : Option String := none
  deriving DecidableEq

/-- The source that a program path and inline words select; only one of them may be given. -/
def Source.select? : Option String → List String → Option Source
  | none, [] => some demo
  | none, texts => some (inline texts)
  | some path, [] => some (file path)
  | some _, _ :: _ => none

namespace Options

def ofItems? (items : List Item) : Option Options := do
  let program ← atMostOne .program items
  let path ← program.mapM path?
  let source ← Source.select? path (valuesOf .word items)
  let memoryWords ← (← atMostOne .memoryWords items).mapM long?
  let hardwireX0 ← isGiven .hardwireX0 items
  let jalrReadsRs1First ← isGiven .jalrReadsRs1First items
  let budget ← (← atMostOne .maxSteps items).mapM long?
  let register ← (← atMostOne .register items).mapM register?
  let dumpRegisters ← isGiven .dumpRegisters items
  let snapshotPath ← (← atMostOne .snapshotPath items).mapM path?
  let standard : Options := {}
  return {
    source
    config :=
      { memoryWords := memoryWords.getD standard.config.memoryWords
        mode := { hardwireX0, jalrReadsRs1First } }
    budget
    register := register.getD standard.register
    dumpRegisters
    snapshotPath }

def ofArguments? (arguments : List String) : Option Options := do
  ofItems? (← items? arguments)

end Options

end WordHart.CommandLine
