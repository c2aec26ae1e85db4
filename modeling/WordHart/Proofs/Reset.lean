import Mathlib
import WordHart.Monitor.Session
import WordHart.Proofs.History
import WordHart.Proofs.Recurrence

namespace WordHart

namespace Machine

variable {machine next final : Machine} {operations : List Operation} {program : List Word}

theorem reset_step (machine : Machine) : machine.step.2.reset = machine.reset := by
  have mode : machine.step.2.hart.mode = machine.hart.mode :=
    (machine.hart.step_keeps machine.memory).1
  rw [reset, reset, Hart.reset, Hart.reset, mode, memory_step, config_step]

theorem reset_runFor (machine : Machine) (budget : Nat) :
    (machine.runFor budget).2.reset = machine.reset := by
  have preserved (reached : Machine) (same : reached.reset = machine.reset) :
      reached.step.2.reset = machine.reset := (reset_step reached).trans same
  exact runFor_preserves preserved budget rfl

theorem reset_run (ended : machine.run = some final) : final.reset = machine.reset := by
  obtain ⟨budget, completed⟩ := runFor_of_run ended
  have undone := machine.reset_runFor budget
  rwa [completed] at undone

theorem reset_load (machine : Machine) (program : List Word) :
    (machine.load program).2.reset = (machine.reset.load program).2 := by
  by_cases fits : program.length ≤ machine.memory.size
  · have fitsReset : program.length ≤ machine.reset.memory.size := fits
    rw [load_of_fits fits, load_of_fits fitsReset]
    rfl
  · have exceeds : machine.memory.size < program.length := Nat.lt_of_not_le fits
    have exceedsReset : machine.reset.memory.size < program.length := exceeds
    rw [load_of_exceeds exceeds, load_of_exceeds exceedsReset]

/-- A run from a machine that has nothing to reset is made again after a reset. -/
theorem run_reset (clear : machine.reset = machine) (ended : machine.run = some final) :
    final.reset.run = some final := by
  rw [reset_run ended, clear, ended]

theorem runFor_reset (clear : machine.reset = machine) (budget : Nat) :
    (machine.runFor budget).2.reset.runFor budget = machine.runFor budget := by
  rw [reset_runFor, clear]

theorem config_perform {operation : Operation} (refused : machine.accepted? operation = none)
    (performed : machine.perform operation = some next) : next.config = machine.config := by
  cases operation with
  | load program =>
      cases performed
      exact config_load machine program
  | step =>
      cases performed
      exact config_step machine
  | run =>
      have undone : next.reset = machine.reset := reset_run performed
      exact congrArg (·.config) undone
  | runFor budget =>
      cases performed
      exact congrArg (·.config) (machine.reset_runFor budget)
  | reset =>
      cases performed
      rfl
  | restore snapshot =>
      cases performed
      rcases restore_cases machine snapshot with ⟨reason, kept, _⟩ | ⟨_, _, restored⟩
      · rw [kept]
      · simp only [accepted?, restored, reduceCtorEq] at refused
  | replace snapshot =>
      simp only [perform] at performed
      split at performed
      case h_1 replacement described =>
        simp only [accepted?, described, reduceCtorEq] at refused
      case h_2 =>
        cases performed
        rfl

theorem config_performAll (unrestored : machine.acceptedBy operations = [])
    (performed : machine.performAll operations = some final) : final.config = machine.config := by
  have preserved (reached : Machine) (operation : Operation) (next : Machine)
      (kept : reached.config = machine.config)
      (refused : ∀ snapshot, reached.accepted? operation = some snapshot → False)
      (performed : reached.perform operation = some next) : next.config = machine.config :=
    (config_perform (Option.eq_none_iff_forall_ne_some.mpr refused) performed).trans kept
  have nothing : ∀ snapshot ∈ machine.acceptedBy operations, False := by
    rw [unrestored]
    exact List.forall_mem_nil _
  exact performAll_preserves preserved rfl nothing performed

theorem load_of_length_eq (whole : program.length = machine.memory.size) :
    machine.load program = (.ok (), { machine with memory := ⟨program.toArray⟩ }) := by
  rw [load_of_fits (Nat.le_of_eq whole), Memory.write_of_length_eq whole]

/-- All words of a machine loaded into a new one make the machine as it is after a reset. -/
theorem load_words_new (consistent : machine.Consistent) :
    (new machine.config).load machine.reset.memory.words = (.ok (), machine.reset) := by
  have whole : machine.reset.memory.words.length = (new machine.config).memory.size := by
    rw [Memory.length_words, new, Memory.size_zero]
    exact consistent.size
  rw [load_of_length_eq whole, reset, Hart.reset, consistent.mode]
  rfl

/-- A machine that no snapshot was restored into is, after a reset, the new machine of the same
configuration with all its words loaded: no session that follows can tell them apart. A run from
such a machine, or from a new one, can be made again after a reset, and it ends the same. -/
theorem reset_starts_over (config : Config) (operations : List Operation) {machine : Machine}
    (performed : (new config).performAll operations = some machine)
    (unrestored : (new config).acceptedBy operations = []) :
    let fresh := (new config).load machine.reset.memory.words
    fresh = (.ok (), machine.reset) ∧
      (∀ threshold slots commands,
        Monitor.transcript threshold ⟨machine.reset, slots⟩ commands =
          Monitor.transcript threshold ⟨fresh.2, slots⟩ commands) ∧
      ∀ start ∈ [new config, machine.reset], ∀ program,
        let loaded := (start.load program).2
        (∀ final, loaded.run = some final → final.reset.run = some final) ∧
          ∀ limit, (loaded.runFor limit).2.reset.runFor limit = loaded.runFor limit := by
  intro fresh
  have reachable := reachable_performAll (.new config) performed
  have kept : machine.config = config := config_performAll unrestored performed
  have same : fresh = (.ok (), machine.reset) := by
    have restarted := load_words_new reachable.consistent
    rwa [kept] at restarted
  refine ⟨same, fun threshold slots commands => ?_, ?_⟩
  · rw [same]
  · intro start among program loaded
    have clear : start.reset = start := by
      simp only [List.mem_cons, List.not_mem_nil, or_false] at among
      rcases among with rfl | rfl <;> rfl
    have clearLoaded : loaded.reset = loaded := by
      rw [reset_load, clear]
    exact ⟨fun final => run_reset clearLoaded, runFor_reset clearLoaded⟩

/-- The history leaves words of the older program in memory, and ends with a program that does not
fit and a single cycle. -/
theorem reset_starts_over_older_words :
    let config : Config := { memoryWords := 4 }
    let older : List Word := [0x00100093, 0x00200113, 0x00300193]
    let counting : List Word := [0x00108093]
    let operations : List Operation :=
      [.load older, .runFor 2, .load counting, .load (older ++ older), .step]
    let machine := ((((new config).load older).2.runFor 2).2.load counting).2.step.2
    let first := ((new config).load counting).2
    let final := (first.runFor 4).2
    let commands : List Monitor.Command :=
      [.machine (.runFor 3), .slot (.take "middle"), .machine .step, .machine .step, .hart .reset]
    (new config).performAll operations = some machine ∧
      (new config).acceptedBy operations = [] ∧ machine.reset ≠ machine ∧
      machine.reset.memory.words = [0x00108093, 0x00200113, 0x00300193, 0] ∧
      (new config).load machine.reset.memory.words = (.ok (), machine.reset) ∧
      Monitor.transcript (some (some .trace)) ⟨machine.reset, []⟩ commands =
        Monitor.transcript (some (some .trace))
          ⟨((new config).load machine.reset.memory.words).2, []⟩ commands ∧
      first.run = some final ∧ final.reset.run = some final := by
  intro config older counting operations machine first final commands
  have performed : (new config).performAll operations = some machine := by decide +kernel
  have unrestored : (new config).acceptedBy operations = [] := by decide +kernel
  have ended : first.run = some final := run_eq_some_iff_runFor.mpr ⟨4, by decide +kernel⟩
  obtain ⟨same, alike, again⟩ := reset_starts_over config operations performed unrestored
  have repeated := (again (new config) List.mem_cons_self counting).1 final ended
  exact ⟨performed, unrestored, by decide +kernel, by decide +kernel, same, alike _ _ commands,
    ended, repeated⟩

end Machine

end WordHart
