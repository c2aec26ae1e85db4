import WordHart.Image.Program
import WordHart.Machine.Restore
import WordHart.Machine.Run
import WordHart.Snapshot.Codec
import WordHart.Snapshot.Edit

namespace WordHart.Monitor

inductive MachineCommand where
  | load (program : List Word)
  /-- The same for the program of a text image. -/
  | loadText (text : String)
  /-- The same for the program of an image of either kind. -/
  | loadImage (data : List UInt8)
  | run
  | runFor (budget : BitVec 64)
  | step
  | config
  deriving DecidableEq

inductive HartCommand where
  /-- Replace the hart by a new one. -/
  | renew (mode : Mode)
  | read (register : Register)
  | write (register : Register) (value : Word)
  /-- All 32 registers as they are stored. -/
  | registers
  | pc
  | counters
  | fetch
  | step
  | execute (instruction : Instruction)
  | reset
  | setPc (pc : Word)
  /-- Set a register as it is stored, even where it is wired to zero. -/
  | setRegister (register : Register) (value : Word)
  | setMode (mode : Mode)
  deriving DecidableEq

inductive MemoryCommand where
  | renew (size : Nat)
  | write (index : Nat) (words : List Word)
  | load (index : Word)
  | contains (index : Word)
  | isEmpty
  | words
  | bytes
  | digest
  deriving DecidableEq

inductive SlotCommand where
  | take (slot : String)
  | edit (slot : String) (edit : Snapshot.Edit)
  | get (slot : String)
  | verify (slot : String)
  | toBytes (slot : String)
  | equal (left right : String)
  | ofBytes (slot : String) (data : List UInt8)
  | restore (slot : String)
  /-- Replace the machine by the one that a snapshot describes. -/
  | replace (slot : String)
  deriving DecidableEq

inductive Command where
  | machine (command : MachineCommand)
  | hart (command : HartCommand)
  | memory (command : MemoryCommand)
  | slot (command : SlotCommand)
  deriving DecidableEq

inductive Failure where
  | image (error : ImageError)
  | program (error : LoadError)
  | cycle (error : AccessError)
  /-- The hart or the memory was asked for a word outside memory. -/
  | access (error : AccessError)
  | restore (error : RestoreError)
  | encoding (fault : EncodingFault)
  | emptySlot (slot : String)
  | endless
  deriving DecidableEq

def Failure.text : Failure → String
  | image error => error.text
  | program error => error.text
  | cycle error => error.text
  | access error => error.text
  | restore error => error.text
  | encoding fault => fault.text
  | emptySlot slot => "no snapshot in slot " ++ Quoted.string slot
  | endless => "the run does not end"

inductive Reply where
  | done
  | word (value : Word)
  | words (values : List Word)
  | flag (value : Bool)
  | bytes (data : List UInt8)
  | digest (text : String)
  | counters (counters : Counters)
  | config (config : Config)
  | outcome (outcome : Outcome)
  | runExit (runExit : RunExit)
  | snapshot (snapshot : Snapshot)
  | failed (failure : Failure)
  deriving DecidableEq

end WordHart.Monitor
