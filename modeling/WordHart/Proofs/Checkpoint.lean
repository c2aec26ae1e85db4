import Mathlib
import WordHart.Proofs.Numerals
import WordHart.Proofs.Reachable
import WordHart.Proofs.SnapshotBytes

namespace WordHart

theorem length_digest (words : List Word) : (digest words).length = 64 := by
  rw [digest, Numeral.length_hexBytes, Sha256.length_hash]

theorem Utf8.length_encode_le (text : String) : (encode text).length ≤ 4 * text.length := by
  rw [encode, ← String.length_toList]
  induction text.toList with
  | nil => rfl
  | cons c chars inductionHypothesis =>
      have short := c.utf8Size_le_four
      rw [List.flatMap_cons, List.length_append, String.length_utf8EncodeChar, List.length_cons]
      omega

theorem RegisterFile.write_read (file : RegisterFile) (register : Register) :
    file.write register (file.read register) = file := by
  apply ext_read
  intro other
  rw [read_write]
  split
  case isTrue same => rw [same]
  case isFalse => rfl

inductive CheckpointError where
  | encoding (fault : EncodingFault)
  | restore (reason : RestoreError)

namespace Machine

variable {machine : Machine}

/-- The machine that the bytes of a machine's snapshot describe. -/
def checkpoint (machine : Machine) : Except CheckpointError Machine :=
  match Snapshot.ofBytes machine.snapshot.toBytes with
  | .error fault => .error (.encoding fault)
  | .ok snapshot => (ofSnapshot snapshot).mapError .restore

/-- A run for each budget in turn, with a checkpoint between any two. -/
def runSegments (machine : Machine) (budget : Nat) :
    List Nat → Except CheckpointError (RunExit × Machine)
  | [] => .ok (machine.runFor budget)
  | next :: later =>
      match (machine.runFor budget).2.checkpoint with
      | .error reason => .error reason
      | .ok resumed => resumed.runSegments next later

theorem intact_snapshot (consistent : machine.Consistent) : machine.snapshot.Intact :=
  ⟨rfl, (Memory.length_words _).trans consistent.size, rfl⟩

theorem sized_snapshot (consistent : machine.Consistent) : machine.snapshot.Sized := by
  refine ⟨?_, ?_, ?_⟩
  · show (Utf8.encode "1.1").length < 2 ^ 64
    decide
  · have short := Utf8.length_encode_le (digest machine.memory.words)
    rw [length_digest] at short
    exact Nat.lt_of_le_of_lt short (by decide)
  · show machine.memory.words.length < 2 ^ 64
    rw [Memory.length_words, consistent.size]
    exact machine.config.memoryWords.isLt

/-- A snapshot keeps everything about a machine whose parts agree. -/
theorem machine_snapshot (consistent : machine.Consistent) : machine.snapshot.machine = machine := by
  have registers : machine.snapshot.hart.registers = machine.hart.registers := by
    by_cases wiring : machine.config.mode.hardwireX0 = true
    · have cleared : machine.snapshot.hart.registers = machine.hart.registers.write .x0 0 :=
        if_pos wiring
      rw [cleared, ← consistent.wired wiring, RegisterFile.write_read]
    · exact if_neg wiring
  have hart : machine.snapshot.hart = machine.hart := calc
    machine.snapshot.hart = ⟨machine.snapshot.hart.registers, machine.hart.pc,
        machine.config.mode, machine.hart.counters⟩ := rfl
    _ = machine.hart := by rw [registers, ← consistent.mode]
  rw [Snapshot.machine, hart]
  rfl

theorem checkpoint_of_consistent (consistent : machine.Consistent) :
    machine.checkpoint = .ok machine := by
  have read := Snapshot.ofBytes_toBytes (sized_snapshot consistent)
  have described : ofSnapshot machine.snapshot = .ok machine :=
    ofSnapshot_eq_ok_iff.mpr ⟨intact_snapshot consistent, machine_snapshot consistent⟩
  simp only [checkpoint, read, described, Except.mapError]

theorem runSegments_of_consistent (consistent : machine.Consistent) (budget : Nat)
    (later : List Nat) :
    machine.runSegments budget later = .ok (machine.runFor (budget + later.sum)) := by
  induction later generalizing machine budget with
  | nil => rfl
  | cons next later inductionHypothesis =>
      have reached := consistent.runFor budget
      rw [runSegments, checkpoint_of_consistent reached, List.sum_cons, runFor_add]
      exact inductionHypothesis reached next

/-- Checkpoints never fail and cannot be told from an uninterrupted run. -/
theorem runSegments_of_reachable (reachable : machine.Reachable) (budget : Nat)
    (later : List Nat) :
    machine.runSegments budget later = .ok (machine.runFor (budget + later.sum)) :=
  runSegments_of_consistent reachable.consistent budget later

theorem runSegments_of_reachable_loop :
    let looping := ((new ⟨2, {}⟩).load [0x00000013, 0xfffff06f]).2
    looping.runSegments 1 [2, 0] = .ok (looping.runFor 3) ∧
      (looping.runFor 3).1 = .stepLimit ∧ (looping.runFor 3).2.hart.pc = 1 := by
  intro looping
  have reachable : looping.Reachable := .perform (.load _) (.new ⟨2, {}⟩) rfl
  exact ⟨runSegments_of_reachable reachable 1 [2, 0], by decide, by decide⟩

end Machine

end WordHart
