import WordHart.Machine.Basic
import WordHart.Snapshot.Basic

namespace WordHart

inductive RestoreError where
  | version (found : String)
  /-- A size in words is not the expected one. -/
  | size (expected found : Nat)
  | digest
  | memory (reason : AccessError)
  deriving DecidableEq

def RestoreError.text : RestoreError → String
  | version found =>
      "snapshot version mismatch: expected " ++ Snapshot.currentVersion ++ ", found " ++ found
  | size expected found =>
      "snapshot memory holds " ++ Numeral.decimal found ++ " words but its config declares " ++
        Numeral.decimal expected
  | digest => "snapshot memory digest does not match its contents"
  | memory reason => reason.text

namespace Snapshot

/-- Whether a snapshot agrees with itself, and the first disagreement if it does not. -/
def validate (snapshot : Snapshot) : Except RestoreError Unit :=
  let declared := snapshot.config.memoryWords.toNat
  if snapshot.version ≠ currentVersion then .error (.version snapshot.version)
  else if snapshot.words.length ≠ declared then .error (.size declared snapshot.words.length)
  else if !snapshot.verify then .error .digest
  else .ok ()

end Snapshot

namespace Machine

/-- The snapshot of a machine: its configuration, hart and memory as they are. -/
def snapshot (machine : Machine) : Snapshot where
  version := Snapshot.currentVersion
  config := machine.config
  pc := machine.hart.pc
  registers := machine.hart.registers
  counters := machine.hart.counters
  digest := WordHart.digest machine.memory.words
  words := machine.memory.words

/-- Put the state of a validated snapshot into a machine whose memory has the declared size. -/
def install (machine : Machine) (snapshot : Snapshot) : Except RestoreError Unit × Machine :=
  let declared := snapshot.config.memoryWords.toNat
  if declared ≠ machine.memory.size then (.error (.size machine.memory.size declared), machine)
  else
    let replaced := { machine with hart := snapshot.hart, config := snapshot.config }
    let (written, memory) := replaced.memory.write 0 snapshot.words
    (written.mapError .memory, { replaced with memory })

/-- Restore a snapshot that agrees with itself; the words are written last. -/
def restore (machine : Machine) (snapshot : Snapshot) : Except RestoreError Unit × Machine :=
  match snapshot.validate with
  | .ok () => machine.install snapshot
  | .error reason => (.error reason, machine)

/-- The machine that a snapshot describes: a new one of its configuration, memory included, which
the snapshot is then restored into. -/
def ofSnapshot (snapshot : Snapshot) : Except RestoreError Machine :=
  match (new snapshot.config).restore snapshot with
  | (.ok (), machine) => .ok machine
  | (.error reason, _) => .error reason

end Machine

end WordHart
