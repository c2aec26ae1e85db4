import Mathlib
import WordHart.Proofs.Reachable

namespace WordHart

theorem add_ofNat_succ (start : BitVec 64) (count : Nat) :
    start + BitVec.ofNat 64 (count + 1) = start + 1 + BitVec.ofNat 64 count := by
  rw [BitVec.ofNat_add, BitVec.add_comm (BitVec.ofNat 64 count), ← BitVec.add_assoc]
  rfl

@[simp] theorem Counters.cycles_record (counters : Counters) (outcome : Outcome) :
    (counters.record outcome).cycles = counters.cycles + 1 := by
  cases outcome <;> rfl

theorem Hart.counters_of_step {hart next : Hart} {memory : Memory} {outcome : Outcome}
    (stepped : hart.step memory = (.ok outcome, next)) :
    next.counters = hart.counters.record outcome := by
  cases loaded : memory.load hart.pc with
  | error reason =>
      rw [step_of_load_error loaded] at stepped
      cases stepped
  | ok word =>
      cases found : Mnemonic.ofWord? word with
      | none =>
          obtain ⟨reason, ignored⟩ := step_of_no_mnemonic loaded found
          rw [ignored] at stepped
          cases stepped
          rfl
      | some mnemonic =>
          obtain ⟨reached, executed, counted, _⟩ := step_of_mnemonic loaded found
          rw [executed] at stepped
          cases stepped
          exact counted

namespace Machine

/-- So many single steps succeed and lead from one machine to another. -/
inductive Steps : Nat → Machine → Machine → Prop
  | refl (machine : Machine) : Steps 0 machine machine
  | cons {count : Nat} {before middle after : Machine} {outcome : Outcome}
      (stepped : before.step = (.ok outcome, middle)) (rest : Steps count middle after) :
      Steps (count + 1) before after

variable {machine next final other : Machine} {outcome : Outcome} {count further : Nat}

theorem step_of_outside (outside : machine.inside = false) :
    machine.step = (.error (.outOfBounds machine.hart.pc.toNat), machine) := by
  have beyond : machine.memory.size ≤ machine.hart.pc.toNat :=
    Nat.le_of_not_lt (of_decide_eq_false outside)
  simp only [Machine.step, Hart.step_of_load_error (Memory.load_of_beyond beyond)]

theorem inside_iff_step_ok :
    machine.inside = true ↔ ∃ outcome next, machine.step = (.ok outcome, next) := by
  constructor
  · exact step_of_inside
  · intro ⟨outcome, next, stepped⟩
    cases inside : machine.inside with
    | true => rfl
    | false =>
        rw [step_of_outside inside] at stepped
        cases stepped

theorem inside_of_step (stepped : machine.step = (.ok outcome, next)) : machine.inside = true :=
  inside_iff_step_ok.mpr ⟨outcome, next, stepped⟩

theorem hart_of_step (stepped : machine.step = (.ok outcome, next)) :
    machine.hart.step machine.memory = (.ok outcome, next.hart) := calc
  machine.hart.step machine.memory = (machine.step.1, machine.step.2.hart) := rfl
  _ = (.ok outcome, next.hart) := by rw [stepped]

theorem memory_of_step (stepped : machine.step = (.ok outcome, next)) :
    next.memory = machine.memory := by
  rw [← memory_step machine, stepped]

theorem mode_of_step (stepped : machine.step = (.ok outcome, next)) :
    next.hart.mode = machine.hart.mode := by
  have kept := (machine.hart.step_keeps machine.memory).1
  rwa [hart_of_step stepped] at kept

theorem counters_of_step (stepped : machine.step = (.ok outcome, next)) :
    next.hart.counters = machine.hart.counters.record outcome :=
  Hart.counters_of_step (hart_of_step stepped)

namespace Steps

theorem trans (first : Steps count machine next) (second : Steps further next final) :
    Steps (count + further) machine final := by
  induction first with
  | refl => rwa [Nat.zero_add]
  | cons stepped _ inductionHypothesis =>
      rw [Nat.add_right_comm]
      exact .cons stepped (inductionHypothesis second)

theorem split (steps : Steps (count + further) machine final) :
    ∃ middle, Steps count machine middle ∧ Steps further middle final := by
  induction count generalizing machine with
  | zero =>
      rw [Nat.zero_add] at steps
      exact ⟨machine, .refl machine, steps⟩
  | succ count inductionHypothesis =>
      rw [Nat.add_right_comm] at steps
      cases steps with
      | cons stepped rest =>
          obtain ⟨middle, front, back⟩ := inductionHypothesis rest
          exact ⟨middle, .cons stepped front, back⟩

theorem memory (steps : Steps count machine final) : final.memory = machine.memory := by
  induction steps with
  | refl => rfl
  | cons stepped _ inductionHypothesis => exact inductionHypothesis.trans (memory_of_step stepped)

theorem mode (steps : Steps count machine final) : final.hart.mode = machine.hart.mode := by
  induction steps with
  | refl => rfl
  | cons stepped _ inductionHypothesis => exact inductionHypothesis.trans (mode_of_step stepped)

theorem cycles (steps : Steps count machine final) :
    final.hart.counters.cycles = machine.hart.counters.cycles + BitVec.ofNat 64 count := by
  induction steps with
  | refl => simp
  | cons stepped _ inductionHypothesis =>
      rw [inductionHypothesis, counters_of_step stepped, Counters.cycles_record, add_ofNat_succ]

/-- The longer of two rows of steps goes on where the shorter one has arrived. -/
theorem suffix (first : Steps count machine next)
    (second : Steps (count + further) machine final) : Steps further next final := by
  induction first with
  | refl => rwa [Nat.zero_add] at second
  | cons stepped _ inductionHypothesis =>
      rw [Nat.add_right_comm] at second
      cases second with
      | cons again rest =>
          rw [stepped] at again
          cases again
          exact inductionHypothesis rest

theorem of_outside (steps : Steps count machine final) (outside : machine.inside = false) :
    count = 0 ∧ final = machine := by
  cases steps with
  | refl => exact ⟨rfl, rfl⟩
  | cons stepped _ =>
      rw [inside_of_step stepped] at outside
      contradiction

theorem count_le_of_outside (first : Steps count machine next) (outside : next.inside = false)
    (second : Steps further machine final) : further ≤ count := by
  by_contra longer
  obtain ⟨extra, rfl⟩ : ∃ extra, further = count + (extra + 1) :=
    ⟨further - count - 1, by omega⟩
  have stuck := (first.suffix second).of_outside outside
  exact Nat.succ_ne_zero extra stuck.1

theorem deterministic (first : Steps count machine next) (second : Steps count machine final) :
    final = next := by
  have rest : Steps 0 next final := first.suffix second
  cases rest
  rfl

end Steps

theorem runFor_of_steps (steps : Steps count machine final) (budget : Nat) :
    machine.runFor (count + budget) = final.runFor budget := by
  induction steps with
  | refl => rw [Nat.zero_add]
  | @cons count _ _ _ _ stepped _ inductionHypothesis =>
      rw [Nat.add_right_comm, runFor_succ_of_inside (inside_of_step stepped), stepped]
      exact inductionHypothesis

theorem runFor_of_steps_outside (steps : Steps count machine final)
    (outside : final.inside = false) {budget : Nat} (enough : count ≤ budget) :
    machine.runFor budget = (.completed, final) := by
  obtain ⟨rest, rfl⟩ := Nat.exists_eq_add_of_le enough
  rw [runFor_of_steps steps, runFor_of_outside outside]

/-- A bounded run makes steps until its budget is used up or memory is left. -/
theorem runFor_cases (machine : Machine) (budget : Nat) :
    (∃ final, Steps budget machine final ∧ final.inside = true ∧
      machine.runFor budget = (.stepLimit, final)) ∨
    ∃ count final, count ≤ budget ∧ Steps count machine final ∧ final.inside = false ∧
      machine.runFor budget = (.completed, final) := by
  induction budget generalizing machine with
  | zero =>
      cases inside : machine.inside with
      | true => exact .inl ⟨machine, .refl machine, inside, if_pos inside⟩
      | false => exact .inr ⟨0, machine, Nat.le_refl 0, .refl machine, inside,
          runFor_of_outside inside 0⟩
  | succ budget inductionHypothesis =>
      cases inside : machine.inside with
      | false => exact .inr ⟨0, machine, Nat.zero_le _, .refl machine, inside,
          runFor_of_outside inside _⟩
      | true =>
          obtain ⟨outcome, next, stepped⟩ := step_of_inside inside
          rw [runFor_succ_of_inside inside, stepped]
          rcases inductionHypothesis next with
            ⟨final, steps, reached, ran⟩ | ⟨count, final, within, steps, reached, ran⟩
          · exact .inl ⟨final, .cons stepped steps, reached, ran⟩
          · exact .inr ⟨count + 1, final, Nat.succ_le_succ within, .cons stepped steps, reached,
              ran⟩

theorem runFor_eq_completed_iff {budget : Nat} :
    machine.runFor budget = (.completed, final) ↔
      ∃ count ≤ budget, Steps count machine final ∧ final.inside = false := by
  constructor
  · intro completed
    rcases runFor_cases machine budget with
      ⟨_, _, _, ran⟩ | ⟨count, reached, within, steps, outside, ran⟩
    · rw [ran] at completed
      cases completed
    · rw [ran] at completed
      cases completed
      exact ⟨count, within, steps, outside⟩
  · intro ⟨count, within, steps, outside⟩
    exact runFor_of_steps_outside steps outside within

end Machine

end WordHart
