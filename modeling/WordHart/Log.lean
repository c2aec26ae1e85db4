import WordHart.Hart.Execute

namespace WordHart

inductive Level where
  | error
  | warn
  | info
  | debug
  | trace
  deriving DecidableEq

namespace Level

/-- Zero for the most urgent level, and one more for each level after it. -/
def verbosity : Level → Nat
  | error => 0
  | warn => 1
  | info => 2
  | debug => 3
  | trace => 4

def text : Level → String
  | error => "ERROR"
  | warn => "WARN"
  | info => "INFO"
  | debug => "DEBUG"
  | trace => "TRACE"

end Level

inductive Entry where
  | loaded (words capacity : Nat)
  /-- A program image was read from a named source. -/
  | parsed (words : Nat) (source : String)
  /-- The word at `pc` was fetched and decoded. -/
  | fetched (pc : Word) (instruction : Instruction)
  | ignored (pc : Word) (instruction : Instruction) (reason : Unsupported)
  | fetchFailed (pc : Word) (reason : AccessError)
  | limitReached (budget : Nat) (pc : Word)
  | finished (pc : Word) (counters : Counters)
  deriving DecidableEq

namespace Entry

def level : Entry → Level
  | loaded .. => .debug
  | parsed .. => .debug
  | fetched .. => .trace
  | ignored .. => .debug
  | fetchFailed .. => .error
  | limitReached .. => .warn
  | finished .. => .info

def pcText (pc : Word) : String := "pc=" ++ Numeral.hex 4 pc.toNat

def wordText (instruction : Instruction) : String := "insn=" ++ Numeral.hex 8 instruction.raw.toNat

def message : Entry → String
  | loaded words capacity =>
      "Loaded " ++ Numeral.decimal words ++ " words into " ++ Numeral.decimal capacity ++
        " words of memory"
  | parsed words source => "Parsed " ++ Numeral.decimal words ++ " words from " ++ source
  | fetched pc instruction =>
      pcText pc ++ " " ++ wordText instruction ++ " " ++ instruction.text
  | ignored pc instruction reason =>
      pcText pc ++ " " ++ wordText instruction ++ " ignored: " ++ reason.text
  | fetchFailed pc reason => "Fetch failed at " ++ pcText pc ++ ": " ++ reason.text
  | limitReached budget pc =>
      "Step limit of " ++ Numeral.decimal budget ++ " reached at " ++ pcText pc
  | finished pc counters => "Run finished: " ++ pcText pc ++ " " ++ counters.text

/-- The line of an entry: its level and what it says. -/
def line (entry : Entry) : String := entry.level.text ++ " " ++ entry.message

end Entry

/-- The most verbose level that a log keeps; `none` keeps nothing. -/
abbrev Threshold := Option Level

def Threshold.admits (threshold : Threshold) (level : Level) : Bool :=
  match threshold with
  | none => false
  | some limit => level.verbosity ≤ limit.verbosity

structure Log where
  threshold : Threshold
  kept : Array Entry := #[]
  deriving DecidableEq

namespace Log

def start (threshold : Threshold) : Log := ⟨threshold, #[]⟩

def record (log : Log) (entry : Entry) : Log :=
  if log.threshold.admits entry.level then { log with kept := log.kept.push entry } else log

def entries (log : Log) : List Entry := log.kept.toList

@[simp] theorem threshold_record (log : Log) (entry : Entry) :
    (log.record entry).threshold = log.threshold := by
  unfold record
  split <;> rfl

@[simp] theorem entries_start (threshold : Threshold) : (start threshold).entries = [] := rfl

theorem entries_record (log : Log) (entry : Entry) :
    (log.record entry).entries =
      log.entries ++ [entry].filter (fun each => log.threshold.admits each.level) := by
  unfold record
  split <;> simp_all [entries]

end Log

end WordHart
