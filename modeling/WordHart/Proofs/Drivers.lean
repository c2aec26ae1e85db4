import Mathlib
import WordHart.Proofs.Recurrence

namespace WordHart.Machine

/-- Where single steps lead that go on until `limit` of them have succeeded or the program counter
is outside memory. -/
structure StepsUntil (limit : Nat) (machine : Machine) (count : Nat) (final : Machine) : Prop where
  steps : Steps count machine final
  within : count ≤ limit
  stopped : count = limit ∨ final.inside = false

/-- A bounded run under way: the machine it has reached and the count of its cycles. -/
structure Loop where
  machine : Machine
  count : BitVec 64

/-- What comes of one pass through the loop. -/
inductive Turn where
  | again (next : Loop)
  | leave (runExit : RunExit)
  | fetchFailed (reason : AccessError) (next : Machine)

variable {machine final other : Machine} {count further : Nat} {limit : BitVec 64}

namespace StepsUntil

theorem count_le {limit : Nat} (first : StepsUntil limit machine count final)
    (second : StepsUntil limit machine further other) : further ≤ count := by
  rcases first.stopped with spent | outside
  · rw [spent]
    exact second.within
  · exact first.steps.count_le_of_outside outside second.steps

theorem unique {limit : Nat} (first : StepsUntil limit machine count final)
    (second : StepsUntil limit machine further other) : further = count ∧ other = final := by
  obtain rfl : further = count := Nat.le_antisymm (first.count_le second) (second.count_le first)
  exact ⟨rfl, first.steps.deterministic second.steps⟩

end StepsUntil

namespace Loop

variable {loop next last : Loop}

def turn (limit : BitVec 64) (loop : Loop) : Turn :=
  if loop.machine.inside then
    if limit ≤ loop.count then .leave .stepLimit
    else
      match loop.machine.step with
      | (.ok _, next) => .again ⟨next, loop.count + 1⟩
      | (.error reason, next) => .fetchFailed reason next
  else .leave .completed

/-- The loop passes through the second state on its way from the first. -/
inductive Visits (limit : BitVec 64) : Loop → Loop → Prop
  | here (loop : Loop) : Visits limit loop loop
  | later {loop next last : Loop} (turned : loop.turn limit = .again next)
      (rest : Visits limit next last) : Visits limit loop last

theorem turn_of_step (below : loop.count < limit) {outcome : Outcome} {next : Machine}
    (stepped : loop.machine.step = (.ok outcome, next)) :
    loop.turn limit = .again ⟨next, loop.count + 1⟩ := by
  rw [turn, if_pos (inside_of_step stepped), if_neg (BitVec.not_le.mpr below), stepped]

theorem turn_of_spent (inside : loop.machine.inside = true) (spent : limit ≤ loop.count) :
    loop.turn limit = .leave .stepLimit := by
  rw [turn, if_pos inside, if_pos spent]

theorem turn_of_outside (outside : loop.machine.inside = false) :
    loop.turn limit = .leave .completed := by
  simp [turn, outside]

/-- Every pass leaves the loop or makes a step that succeeds and is counted. -/
theorem turn_cases (limit : BitVec 64) (loop : Loop) :
    (∃ runExit, loop.turn limit = .leave runExit) ∨
    ∃ outcome next, loop.count < limit ∧ loop.machine.step = (.ok outcome, next) ∧
      loop.turn limit = .again ⟨next, loop.count + 1⟩ := by
  cases inside : loop.machine.inside with
  | false => exact .inl ⟨_, turn_of_outside inside⟩
  | true =>
      by_cases spent : limit ≤ loop.count
      · exact .inl ⟨_, turn_of_spent inside spent⟩
      · have below := BitVec.not_le.mp spent
        obtain ⟨outcome, next, stepped⟩ := step_of_inside inside
        exact .inr ⟨outcome, next, below, stepped, turn_of_step below stepped⟩

theorem turn_ne_fetchFailed (limit : BitVec 64) (loop : Loop) (reason : AccessError)
    (next : Machine) : loop.turn limit ≠ .fetchFailed reason next := by
  rcases turn_cases limit loop with ⟨runExit, left⟩ | ⟨outcome, _, _, _, again⟩
  · rw [left]
    exact nofun
  · rw [again]
    exact nofun

/-- The count is that of the steps made, and within the limit. -/
structure Counts (limit : BitVec 64) (machine : Machine) (loop : Loop) : Prop where
  within : loop.count ≤ limit
  steps : Steps loop.count.toNat machine loop.machine

theorem counts_start : Counts limit machine ⟨machine, 0⟩ :=
  ⟨by bv_omega, .refl machine⟩

theorem Counts.turn (counts : Counts limit machine loop) (turned : loop.turn limit = .again next) :
    Counts limit machine next := by
  rcases turn_cases limit loop with ⟨runExit, left⟩ | ⟨outcome, reached, below, stepped, again⟩
  · rw [left] at turned
    cases turned
  · rw [again] at turned
    cases turned
    have unwrapped : (loop.count + 1).toNat = loop.count.toNat + 1 := by bv_omega
    refine ⟨by bv_omega, ?_⟩
    rw [unwrapped]
    exact counts.steps.trans (.cons stepped (.refl reached))

theorem Counts.visits (visits : Visits limit loop last) (counts : Counts limit machine loop) :
    Counts limit machine last := by
  induction visits with
  | here => exact counts
  | later turned _ inductionHypothesis => exact inductionHypothesis (counts.turn turned)

theorem visits_of_steps {first last : Machine} (steps : Steps count first last)
    {start : BitVec 64} (within : start.toNat + count ≤ limit.toNat) :
    Visits limit ⟨first, start⟩ ⟨last, start + BitVec.ofNat 64 count⟩ := by
  induction steps generalizing start with
  | refl machine =>
      rw [BitVec.add_zero]
      exact .here ⟨machine, start⟩
  | @cons count _ _ _ _ stepped _ inductionHypothesis =>
      have below : start < limit := by bv_omega
      rw [add_ofNat_succ]
      refine .later (turn_of_step below stepped) (inductionHypothesis ?_)
      bv_omega

theorem exists_visits (steps : Steps count machine final) (within : count ≤ limit.toNat) :
    ∃ loop, Visits limit ⟨machine, 0⟩ loop ∧ loop.machine = final ∧ loop.count.toNat = count := by
  have counted : ((0 : BitVec 64) + BitVec.ofNat 64 count).toNat = count := by bv_omega
  have visits : Visits limit ⟨machine, 0⟩ ⟨final, 0 + BitVec.ofNat 64 count⟩ :=
    visits_of_steps steps (by simpa using within)
  exact ⟨_, visits, rfl, counted⟩

end Loop

theorem runFor_stepsUntil (machine : Machine) (limit : Nat) :
    ∃ runExit count final, machine.runFor limit = (runExit, final) ∧
      StepsUntil limit machine count final ∧
      (runExit = .stepLimit ∧ final.inside = true ∧ count = limit ∨
        runExit = .completed ∧ final.inside = false) := by
  rcases runFor_cases machine limit with
    ⟨final, steps, inside, ran⟩ | ⟨count, final, within, steps, outside, ran⟩
  · exact ⟨.stepLimit, limit, final, ran, ⟨steps, Nat.le_refl limit, .inl rfl⟩,
      .inl ⟨rfl, inside, rfl⟩⟩
  · exact ⟨.completed, count, final, ran, ⟨steps, within, .inr outside⟩, .inr ⟨rfl, outside⟩⟩

/-- Single steps, bounded runs and unbounded runs go the same way and stop at the same place. -/
theorem drivers_agree (machine : Machine) :
    (machine.inside = true ↔ ∃ outcome next, machine.step = (.ok outcome, next)) ∧
    (∀ limit : BitVec 64, ∃ runExit count final,
      machine.runFor limit.toNat = (runExit, final) ∧
      (∀ steps reached, StepsUntil limit.toNat machine steps reached ↔
        steps = count ∧ reached = final) ∧
      final.hart.counters.cycles = machine.hart.counters.cycles + BitVec.ofNat 64 count ∧
      (runExit = .stepLimit ↔ final.inside = true) ∧
      (runExit = .stepLimit → count = limit.toNat) ∧
      (runExit = .completed ↔ final.inside = false) ∧
      (runExit = .completed → count ≤ limit.toNat) ∧
      (∃ loop, Loop.Visits limit ⟨machine, 0⟩ loop ∧ loop.turn limit = .leave runExit ∧
        loop.machine = final ∧ loop.count.toNat = count) ∧
      (∀ loop, Loop.Visits limit ⟨machine, 0⟩ loop →
        loop.count ≤ limit ∧ ∀ reason next, loop.turn limit ≠ .fetchFailed reason next)) ∧
    (∀ final, machine.run = some final ↔
      ∃ count, Steps count machine final ∧ final.inside = false) ∧
    (∀ final, machine.run = some final ↔
      ∃ limit, machine.runFor limit = (.completed, final)) ∧
    (∀ final, machine.run = some final →
      (∀ count, Steps count machine final →
        machine.hart.counters.cycles.toNat + count < 2 ^ 64) →
      ∃ limit : BitVec 64, machine.runFor limit.toNat = (.completed, final)) := by
  refine ⟨inside_iff_step_ok, fun limit => ?_, fun final => run_eq_some_iff,
    fun final => run_eq_some_iff_runFor, fun final ended fits => ?_⟩
  · obtain ⟨runExit, count, final, ran, driven, stopped⟩ := runFor_stepsUntil machine limit.toNat
    obtain ⟨loop, visited, reached, counted⟩ := Loop.exists_visits driven.steps driven.within
    have uniquely (steps : Nat) (reached : Machine) :
        StepsUntil limit.toNat machine steps reached ↔ steps = count ∧ reached = final :=
      ⟨driven.unique, fun ⟨same, there⟩ => by rwa [same, there]⟩
    have every (loop : Loop) (visited : Loop.Visits limit ⟨machine, 0⟩ loop) :
        loop.count ≤ limit ∧ ∀ reason next, loop.turn limit ≠ .fetchFailed reason next :=
      ⟨(Loop.counts_start.visits visited).within, loop.turn_ne_fetchFailed limit⟩
    refine ⟨runExit, count, final, ran, uniquely, driven.steps.cycles, ?_⟩
    rcases stopped with ⟨rfl, inside, spent⟩ | ⟨rfl, outside⟩
    · have left : loop.turn limit = .leave .stepLimit := by
        apply Loop.turn_of_spent
        · rwa [reached]
        · bv_omega
      exact ⟨by simp [inside], fun _ => spent, by simp [inside], nofun,
        ⟨loop, visited, left, reached, counted⟩, every⟩
    · have left : loop.turn limit = .leave .completed := by
        apply Loop.turn_of_outside
        rwa [reached]
      exact ⟨by simp [outside], nofun, by simp [outside], fun _ => driven.within,
        ⟨loop, visited, left, reached, counted⟩, every⟩
  · obtain ⟨count, steps, outside⟩ := run_eq_some_iff.mp ended
    have small := fits count steps
    refine ⟨BitVec.ofNat 64 count, runFor_of_steps_outside steps outside ?_⟩
    rw [BitVec.toNat_ofNat, Nat.mod_eq_of_lt (by omega)]

theorem drivers_agree_last_permitted_cycle :
    let machine := ((new ⟨2, {}⟩).load [0x00000013, 0x00000013]).2
    (machine.runFor 1).1 = .stepLimit ∧ (machine.runFor 2).1 = .completed ∧
      machine.run = some (machine.runFor 2).2 ∧
      ∃ limit : BitVec 64, machine.runFor limit.toNat = (.completed, (machine.runFor 2).2) := by
  intro machine
  obtain ⟨_, _, stepwise, bounded, fitting⟩ := drivers_agree machine
  have completed : machine.runFor 2 = (.completed, (machine.runFor 2).2) := by decide
  have ended : machine.run = some (machine.runFor 2).2 := (bounded _).mpr ⟨2, completed⟩
  refine ⟨by decide, by decide, ended, fitting _ ended fun count steps => ?_⟩
  obtain ⟨enough, within, shorter, outside⟩ := runFor_eq_completed_iff.mp completed
  have few := shorter.count_le_of_outside outside steps
  have fresh : machine.hart.counters.cycles.toNat = 0 := by decide
  omega

end WordHart.Machine
