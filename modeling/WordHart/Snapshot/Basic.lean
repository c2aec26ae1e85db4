import WordHart.Config
import WordHart.Hart.Basic
import WordHart.Sha256

namespace WordHart

/-- The SHA-256 of the byte image of some words, in lower-case hexadecimal. -/
def digest (words : List Word) : String :=
  Numeral.hexBytes (Sha256.hash (LittleEndian.ofWords words))

/-- The state of a machine as a value. It may contradict itself: that is found out when it is
restored. -/
structure Snapshot where
  version : String
  config : Config
  pc : Word
  registers : RegisterFile
  counters : Counters
  digest : String
  words : List Word
  deriving DecidableEq

namespace Snapshot

/-- The version that snapshots are taken with and must have to be restored. -/
def currentVersion : String := "1.1"

/-- The snapshot of an empty memory that nothing has been done with. -/
def blank : Snapshot :=
  ⟨currentVersion, {}, 0, .zero, {}, WordHart.digest [], []⟩

def verify (snapshot : Snapshot) : Bool := WordHart.digest snapshot.words = snapshot.digest

/-- The hart that a snapshot describes, `x0` being cleared if it is wired to zero. -/
def hart (snapshot : Snapshot) : Hart :=
  { registers :=
      if snapshot.config.mode.hardwireX0 then snapshot.registers.write .x0 0
      else snapshot.registers
    pc := snapshot.pc
    mode := snapshot.config.mode
    counters := snapshot.counters }

end Snapshot

end WordHart
