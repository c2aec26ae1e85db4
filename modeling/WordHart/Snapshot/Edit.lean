import WordHart.Snapshot.Basic

namespace WordHart.Snapshot

/-- New values for some fields of a snapshot. The digest stays unless a new one is asked for. -/
structure Edit where
  version : Option String := none
  memoryWords : Option (BitVec 64) := none
  hardwireX0 : Option Bool := none
  jalrReadsRs1First : Option Bool := none
  pc : Option Word := none
  /-- The registers to set; the others stay. -/
  registers : List (Register × Word) := []
  counters : Option Counters := none
  words : Option (List Word) := none
  /-- Whether the digest is made that of the words, new or old. -/
  rehash : Bool := false
  /-- A digest that replaces any other. -/
  digest : Option String := none
  deriving DecidableEq

def Edit.mode (edit : Edit) (mode : Mode) : Mode where
  hardwireX0 := edit.hardwireX0.getD mode.hardwireX0
  jalrReadsRs1First := edit.jalrReadsRs1First.getD mode.jalrReadsRs1First

/-- The snapshot with the fields that an edit gives. -/
def edit (edit : Edit) (snapshot : Snapshot) : Snapshot :=
  let words := edit.words.getD snapshot.words
  { version := edit.version.getD snapshot.version
    config :=
      { memoryWords := edit.memoryWords.getD snapshot.config.memoryWords
        mode := edit.mode snapshot.config.mode }
    pc := edit.pc.getD snapshot.pc
    registers := edit.registers.foldl
      (fun file (register, value) => file.write register value) snapshot.registers
    counters := edit.counters.getD snapshot.counters
    digest := edit.digest.getD (if edit.rehash then WordHart.digest words else snapshot.digest)
    words }

end WordHart.Snapshot
