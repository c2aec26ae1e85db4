import Mathlib
import WordHart.Proofs.Checkpoint

namespace WordHart.Machine

variable {machine restored : Machine}

theorem intact_snapshot_iff :
    machine.snapshot.Intact ↔ machine.memory.size = machine.config.memoryWords.toNat := by
  constructor
  · intro intact
    exact (Memory.length_words _).symm.trans intact.count
  · intro size
    exact ⟨rfl, (Memory.length_words _).trans size, rfl⟩

theorem ofSnapshot_snapshot_of_size
    (size : machine.memory.size = machine.config.memoryWords.toNat) :
    ofSnapshot machine.snapshot = .ok machine.snapshot.machine :=
  ofSnapshot_of_intact (intact_snapshot_iff.mpr size)

theorem ofSnapshot_snapshot_of_other_size
    (other : machine.memory.size ≠ machine.config.memoryWords.toNat) :
    ofSnapshot machine.snapshot =
      .error (.size machine.config.memoryWords.toNat machine.memory.size) := by
  have count : machine.snapshot.words.length = machine.memory.size := Memory.length_words _
  have wrong : machine.snapshot.words.length ≠ machine.snapshot.config.memoryWords.toNat := by
    rw [count]
    exact other
  have refused := Snapshot.validate_of_count rfl wrong
  rw [count] at refused
  exact ofSnapshot_of_refused refused

theorem read_registers_snapshot (machine : Machine) (register : Register) :
    machine.snapshot.hart.registers.read register =
      if machine.config.mode.hardwireX0 = true ∧ register = .x0 then 0
      else machine.hart.registers.read register := by
  by_cases wiring : machine.config.mode.hardwireX0 = true
  · have cleared : machine.snapshot.hart.registers = machine.hart.registers.write .x0 0 :=
      if_pos wiring
    rw [cleared, RegisterFile.read_write]
    simp only [wiring, true_and, @eq_comm _ register]
  · have kept : machine.snapshot.hart.registers = machine.hart.registers := if_neg wiring
    rw [kept, if_neg fun both => wiring both.1]

theorem consistent_iff :
    machine.Consistent ↔
      machine.memory.size = machine.config.memoryWords.toNat ∧
      machine.hart.mode = machine.config.mode ∧
      ¬ (machine.config.mode.hardwireX0 = true ∧ machine.hart.registers.read .x0 ≠ 0) := by
  constructor
  · intro consistent
    exact ⟨consistent.size, consistent.mode, fun ⟨wiring, stale⟩ => stale (consistent.wired wiring)⟩
  · intro ⟨size, mode, fresh⟩
    refine ⟨size, mode, fun wiring => ?_⟩
    by_contra stale
    exact fresh ⟨wiring, stale⟩

/-- The machines that come back from their own snapshots are those whose parts agree. -/
theorem ofSnapshot_snapshot_eq_ok_iff : ofSnapshot machine.snapshot = .ok machine ↔
    machine.Consistent := by
  rw [ofSnapshot_eq_ok_iff]
  constructor
  · intro ⟨intact, same⟩
    have consistent := Snapshot.consistent_machine intact.count
    rwa [same] at consistent
  · intro consistent
    exact ⟨intact_snapshot consistent, machine_snapshot consistent⟩

/-- What becomes of any machine that is restored from its own snapshot. -/
theorem ofSnapshot_snapshot_keeps (machine : Machine) :
    ((∃ restored, ofSnapshot machine.snapshot = .ok restored) ↔
      machine.memory.size = machine.config.memoryWords.toNat) ∧
    (machine.memory.size ≠ machine.config.memoryWords.toNat →
      ofSnapshot machine.snapshot =
        .error (.size machine.config.memoryWords.toNat machine.memory.size)) ∧
    (∀ restored, ofSnapshot machine.snapshot = .ok restored →
      restored.config = machine.config ∧
      restored.hart.pc = machine.hart.pc ∧
      restored.hart.counters = machine.hart.counters ∧
      restored.memory = machine.memory ∧
      (∀ register, register ≠ .x0 →
        restored.hart.registers.read register = machine.hart.registers.read register) ∧
      restored.hart.mode = machine.config.mode ∧
      restored.hart.registers.read .x0 =
        if machine.config.mode.hardwireX0 then 0 else machine.hart.registers.read .x0) ∧
    (ofSnapshot machine.snapshot = .ok machine ↔
      machine.memory.size = machine.config.memoryWords.toNat ∧
      machine.hart.mode = machine.config.mode ∧
      ¬ (machine.config.mode.hardwireX0 = true ∧ machine.hart.registers.read .x0 ≠ 0)) := by
  refine ⟨⟨fun ⟨restored, described⟩ => ?_, fun size => ?_⟩, ofSnapshot_snapshot_of_other_size,
    fun restored described => ?_, ?_⟩
  · exact intact_snapshot_iff.mp (ofSnapshot_eq_ok_iff.mp described).1
  · exact ⟨_, ofSnapshot_snapshot_of_size size⟩
  · obtain ⟨-, rfl⟩ := ofSnapshot_eq_ok_iff.mp described
    refine ⟨rfl, rfl, rfl, rfl, fun register other => ?_, rfl, ?_⟩
    · exact (read_registers_snapshot machine register).trans (if_neg fun both => other both.2)
    · have wired := read_registers_snapshot machine .x0
      simp only [and_true] at wired
      exact wired
  · rw [ofSnapshot_snapshot_eq_ok_iff, consistent_iff]

theorem ofSnapshot_snapshot_keeps_drifted :
    let stale : Hart := { Hart.new ⟨false, true⟩ with registers := RegisterFile.zero.write .x0 7 }
    let machine : Machine := ⟨stale, .zero 2, ⟨2, ⟨true, false⟩⟩⟩
    (∃ restored, ofSnapshot machine.snapshot = .ok restored ∧
      restored.hart.mode = ⟨true, false⟩ ∧ restored.hart.registers.read .x0 = 0 ∧
      restored ≠ machine) ∧
    ofSnapshot (Machine.snapshot { machine with memory := .zero 3 }) = .error (.size 2 3) := by
  intro stale machine
  obtain ⟨accepted, -, kept, same⟩ := ofSnapshot_snapshot_keeps machine
  obtain ⟨restored, described⟩ := accepted.mpr (by decide)
  obtain ⟨-, -, -, -, -, mode, wired⟩ := kept restored described
  refine ⟨⟨restored, described, mode, wired, ?_⟩, ?_⟩
  · rintro rfl
    exact absurd (same.mp described).2.1 (by decide)
  · exact (ofSnapshot_snapshot_keeps { machine with memory := .zero 3 }).2.1 (by decide)

end WordHart.Machine
