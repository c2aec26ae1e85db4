import Mathlib
import WordHart.Machine.Restore

namespace WordHart

open Machine

theorem Memory.write_of_length_eq {memory : Memory} {words : List Word}
    (whole : words.length = memory.size) : memory.write 0 words = (.ok (), ⟨words.toArray⟩) := by
  have total : 0 + words.length = memory.size := by omega
  have written : (memory.write 0 words).1 = .ok () := by rw [write_of_fits (Nat.le_of_eq total)]
  have replaced : (memory.write 0 words).2 = ⟨words.toArray⟩ := by
    apply ext_words
    rw [words_write (Nat.le_of_eq total), total, ← length_words, List.drop_length]
    simp [Memory.words]
  exact Prod.ext written replaced

structure Machine.Consistent (machine : Machine) : Prop where
  size : machine.memory.size = machine.config.memoryWords.toNat
  mode : machine.hart.mode = machine.config.mode
  wired : machine.config.mode.hardwireX0 = true → machine.hart.registers.read .x0 = 0

namespace Snapshot

/-- The machine whose parts are the fields of a snapshot. -/
def machine (snapshot : Snapshot) : Machine :=
  ⟨snapshot.hart, ⟨snapshot.words.toArray⟩, snapshot.config⟩

/-- A snapshot that does not contradict itself. -/
structure Intact (snapshot : Snapshot) : Prop where
  version : snapshot.version = "1.1"
  count : snapshot.words.length = snapshot.config.memoryWords.toNat
  digest : snapshot.digest = WordHart.digest snapshot.words

variable {snapshot : Snapshot}

theorem validate_of_intact (intact : snapshot.Intact) : snapshot.validate = .ok () := by
  have verified : snapshot.verify = true := by simp [verify, intact.digest]
  simp [validate, currentVersion, intact.version, intact.count, verified]

theorem validate_of_version (wrong : snapshot.version ≠ "1.1") :
    snapshot.validate = .error (.version snapshot.version) := if_pos wrong

theorem validate_of_count (version : snapshot.version = "1.1")
    (wrong : snapshot.words.length ≠ snapshot.config.memoryWords.toNat) :
    snapshot.validate =
      .error (.size snapshot.config.memoryWords.toNat snapshot.words.length) := by
  simp [validate, currentVersion, version, wrong]

theorem validate_of_digest (version : snapshot.version = "1.1")
    (count : snapshot.words.length = snapshot.config.memoryWords.toNat)
    (wrong : snapshot.digest ≠ WordHart.digest snapshot.words) :
    snapshot.validate = .error .digest := by
  have unverified : snapshot.verify = false := by simp [verify, wrong.symm]
  simp [validate, currentVersion, version, count, unverified]

theorem intact_of_validate (accepted : snapshot.validate = .ok ()) : snapshot.Intact := by
  have version : snapshot.version = "1.1" := by
    by_contra wrong
    rw [validate_of_version wrong] at accepted
    contradiction
  have count : snapshot.words.length = snapshot.config.memoryWords.toNat := by
    by_contra wrong
    rw [validate_of_count version wrong] at accepted
    contradiction
  have digest : snapshot.digest = WordHart.digest snapshot.words := by
    by_contra wrong
    rw [validate_of_digest version count wrong] at accepted
    contradiction
  exact ⟨version, count, digest⟩

theorem consistent_machine (count : snapshot.words.length = snapshot.config.memoryWords.toNat) :
    snapshot.machine.Consistent := by
  refine ⟨by simpa [machine, Memory.size] using count, rfl, fun wired => ?_⟩
  have cleared : snapshot.machine.hart.registers = snapshot.registers.write .x0 0 := if_pos wired
  rw [cleared, RegisterFile.read_write, if_pos rfl]

theorem snapshot_machine (intact : snapshot.Intact) :
    snapshot.machine.snapshot =
      { snapshot with
        registers :=
          if snapshot.config.mode.hardwireX0 then snapshot.registers.write .x0 0
          else snapshot.registers } := by
  simp only [Machine.snapshot, machine, hart, Memory.words, currentVersion, intact.version,
    intact.digest]

end Snapshot

namespace Machine

variable {machine : Machine} {snapshot : Snapshot}

/-- The write at the end of a restore fits and leaves nothing of the old memory. -/
theorem install_of_size (count : snapshot.words.length = snapshot.config.memoryWords.toNat)
    (size : snapshot.config.memoryWords.toNat = machine.memory.size) :
    machine.install snapshot = (.ok (), snapshot.machine) := by
  have written := Memory.write_of_length_eq (count.trans size)
  simp only [install, size, ne_eq, not_true_eq_false, if_false, written, Except.mapError,
    Snapshot.machine]

theorem install_of_other_size (other : snapshot.config.memoryWords.toNat ≠ machine.memory.size) :
    machine.install snapshot =
      (.error (.size machine.memory.size snapshot.config.memoryWords.toNat), machine) := if_pos other

theorem restore_of_refused {reason : RestoreError} (refused : snapshot.validate = .error reason) :
    machine.restore snapshot = (.error reason, machine) := by
  simp only [restore, refused]

theorem restore_of_intact (intact : snapshot.Intact) :
    machine.restore snapshot = machine.install snapshot := by
  simp only [restore, Snapshot.validate_of_intact intact]

theorem ofSnapshot_of_refused {reason : RestoreError}
    (refused : snapshot.validate = .error reason) : ofSnapshot snapshot = .error reason := by
  simp only [ofSnapshot, restore_of_refused refused]

theorem ofSnapshot_of_intact (intact : snapshot.Intact) :
    ofSnapshot snapshot = .ok snapshot.machine := by
  have size : snapshot.config.memoryWords.toNat = (new snapshot.config).memory.size :=
    (Memory.size_zero _).symm
  simp only [ofSnapshot, restore_of_intact intact, install_of_size intact.count size]

theorem ofSnapshot_eq_ok_iff :
    ofSnapshot snapshot = .ok machine ↔ snapshot.Intact ∧ snapshot.machine = machine := by
  constructor
  · intro described
    have intact : snapshot.Intact := by
      apply Snapshot.intact_of_validate
      cases validated : snapshot.validate with
      | ok => rfl
      | error reason =>
          rw [ofSnapshot_of_refused validated] at described
          contradiction
    rw [ofSnapshot_of_intact intact] at described
    exact ⟨intact, Except.ok.inj described⟩
  · intro ⟨intact, same⟩
    rw [ofSnapshot_of_intact intact, same]

/-- A refused snapshot leaves the machine as it was, and it is never the write that refuses it. -/
theorem restore_cases (machine : Machine) (snapshot : Snapshot) :
    (∃ reason, machine.restore snapshot = (.error reason, machine) ∧
      ∀ cause, reason ≠ .memory cause) ∨
    snapshot.Intact ∧ snapshot.config.memoryWords.toNat = machine.memory.size ∧
      machine.restore snapshot = (.ok (), snapshot.machine) := by
  by_cases version : snapshot.version = "1.1"
  case neg =>
    have refused := Snapshot.validate_of_version version
    exact .inl ⟨_, restore_of_refused refused, nofun⟩
  by_cases count : snapshot.words.length = snapshot.config.memoryWords.toNat
  case neg =>
    have refused := Snapshot.validate_of_count version count
    exact .inl ⟨_, restore_of_refused refused, nofun⟩
  by_cases digest : snapshot.digest = WordHart.digest snapshot.words
  case neg =>
    have refused := Snapshot.validate_of_digest version count digest
    exact .inl ⟨_, restore_of_refused refused, nofun⟩
  have intact : snapshot.Intact := ⟨version, count, digest⟩
  by_cases size : snapshot.config.memoryWords.toNat = machine.memory.size
  case neg =>
    have refused := (restore_of_intact intact).trans (install_of_other_size size)
    exact .inl ⟨_, refused, nofun⟩
  have accepted := (restore_of_intact intact).trans (install_of_size count size)
  exact .inr ⟨intact, size, accepted⟩

theorem restore_of_ok (accepted : (machine.restore snapshot).1 = .ok ()) :
    snapshot.Intact ∧ snapshot.config.memoryWords.toNat = machine.memory.size ∧
      machine.restore snapshot = (.ok (), snapshot.machine) := by
  rcases restore_cases machine snapshot with ⟨reason, refused, _⟩ | restored
  · rw [refused] at accepted
    contradiction
  · exact restored

/-- Restoring succeeds exactly under four conditions; otherwise the first that fails is the error
and the machine is as before, and on success nothing of the machine before is left. -/
theorem restore_all_or_nothing (machine : Machine) (snapshot : Snapshot) :
    ((machine.restore snapshot).1 = .ok () ↔
      snapshot.version = "1.1" ∧
      snapshot.words.length = snapshot.config.memoryWords.toNat ∧
      snapshot.digest = WordHart.digest snapshot.words ∧
      snapshot.config.memoryWords.toNat = machine.memory.size) ∧
    (snapshot.version ≠ "1.1" →
      machine.restore snapshot = (.error (.version snapshot.version), machine)) ∧
    (snapshot.version = "1.1" →
      snapshot.words.length ≠ snapshot.config.memoryWords.toNat →
      machine.restore snapshot =
        (.error (.size snapshot.config.memoryWords.toNat snapshot.words.length), machine)) ∧
    (snapshot.version = "1.1" →
      snapshot.words.length = snapshot.config.memoryWords.toNat →
      snapshot.digest ≠ WordHart.digest snapshot.words →
      machine.restore snapshot = (.error .digest, machine)) ∧
    (snapshot.version = "1.1" →
      snapshot.words.length = snapshot.config.memoryWords.toNat →
      snapshot.digest = WordHart.digest snapshot.words →
      snapshot.config.memoryWords.toNat ≠ machine.memory.size →
      machine.restore snapshot =
        (.error (.size machine.memory.size snapshot.config.memoryWords.toNat), machine)) ∧
    (∀ reason, (machine.restore snapshot).1 ≠ .error (.memory reason)) ∧
    ((machine.restore snapshot).1 = .ok () →
      ofSnapshot snapshot = .ok (machine.restore snapshot).2 ∧
      (machine.restore snapshot).2.snapshot =
        { snapshot with
          registers :=
            if snapshot.config.mode.hardwireX0 then snapshot.registers.write .x0 0
            else snapshot.registers } ∧
      (machine.restore snapshot).2.Consistent) := by
  refine ⟨⟨fun accepted => ?_, fun ⟨version, count, digest, size⟩ => ?_⟩, fun wrong => ?_,
    fun version wrong => ?_, fun version count wrong => ?_, fun version count digest other => ?_,
    fun reason => ?_, fun accepted => ?_⟩
  · obtain ⟨intact, size, _⟩ := restore_of_ok accepted
    exact ⟨intact.version, intact.count, intact.digest, size⟩
  · rw [restore_of_intact ⟨version, count, digest⟩, install_of_size count size]
  · exact restore_of_refused (Snapshot.validate_of_version wrong)
  · exact restore_of_refused (Snapshot.validate_of_count version wrong)
  · exact restore_of_refused (Snapshot.validate_of_digest version count wrong)
  · rw [restore_of_intact ⟨version, count, digest⟩, install_of_other_size other]
  · rcases restore_cases machine snapshot with ⟨_, refused, other⟩ | ⟨_, _, accepted⟩
    · intro written
      rw [refused] at written
      exact other reason (Except.error.inj written)
    · rw [accepted]
      exact nofun
  · obtain ⟨intact, _, restored⟩ := restore_of_ok accepted
    rw [restored]
    exact ⟨ofSnapshot_of_intact intact, Snapshot.snapshot_machine intact,
      Snapshot.consistent_machine intact.count⟩

theorem restore_all_or_nothing_between_modes :
    let machine := new ⟨2, ⟨false, false⟩⟩
    let snapshot := (new ⟨2, ⟨true, true⟩⟩).snapshot
    (machine.restore snapshot).1 = .ok () ∧
      machine.restore { snapshot with version := "1.0" } = (.error (.version "1.0"), machine) ∧
      machine.restore { snapshot with words := [0] } = (.error (.size 2 1), machine) ∧
      machine.restore { snapshot with digest := snapshot.digest ++ "0" } =
        (.error .digest, machine) ∧
      (new ⟨3, {}⟩).restore snapshot = (.error (.size 3 2), new ⟨3, {}⟩) := by
  intro machine snapshot
  have longer : snapshot.digest ++ "0" ≠ snapshot.digest := by simp
  refine ⟨?_, ?_, ?_, ?_, ?_⟩
  · exact (restore_all_or_nothing machine snapshot).1.mpr ⟨rfl, by decide, rfl, by decide⟩
  · exact (restore_all_or_nothing machine { snapshot with version := "1.0" }).2.1 (by decide)
  · exact (restore_all_or_nothing machine { snapshot with words := [0] }).2.2.1 rfl (by decide)
  · exact (restore_all_or_nothing machine
      { snapshot with digest := snapshot.digest ++ "0" }).2.2.2.1 rfl (by decide) longer
  · exact (restore_all_or_nothing (new ⟨3, {}⟩) snapshot).2.2.2.2.1 rfl (by decide) rfl (by decide)

end Machine

end WordHart
