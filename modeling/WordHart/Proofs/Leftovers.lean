import Mathlib
import WordHart.Proofs.Lockstep
import WordHart.Proofs.Stores

namespace WordHart

namespace Machine

variable {machine left right : Machine} {program : List Word} {bound count : Nat}

/-- Two machines with equal harts, whose memories have one size and differ from a bound on only. -/
structure SameBelow (bound : Nat) (left right : Machine) : Prop where
  hart : right.hart = left.hart
  size : right.memory.size = left.memory.size
  words : ∀ index < bound, right.memory.words[index]? = left.memory.words[index]?

/-- The word that the next cycle fetches, if it fetches one, is below a bound. -/
def FetchesBelow (bound : Nat) (machine : Machine) : Prop :=
  machine.inside = true → machine.hart.pc.toNat < bound

instance (bound : Nat) : DecidablePred (FetchesBelow bound) :=
  fun _ => inferInstanceAs (Decidable (_ → _))

/-- So many cycles, one by one or as a bounded run, return the same on two machines and leave the
same hart. -/
structure SameCycles (count : Nat) (left right : Machine) : Prop where
  outcomes : (right.stepTimes count).1 = (left.stepTimes count).1
  hart : (right.stepTimes count).2.hart = (left.stepTimes count).2.hart
  exit : (right.runFor count).1 = (left.runFor count).1
  final : (right.runFor count).2.hart = (left.runFor count).2.hart

theorem SameCycles.symm (same : SameCycles count left right) : SameCycles count right left :=
  ⟨same.outcomes.symm, same.hart.symm, same.exit.symm, same.final.symm⟩

namespace SameBelow

theorem symm (same : SameBelow bound left right) : SameBelow bound right left :=
  ⟨same.hart.symm, same.size.symm, fun index below => (same.words index below).symm⟩

theorem inside (same : SameBelow bound left right) : right.inside = left.inside := by
  rw [Machine.inside, Machine.inside, Memory.contains, Memory.contains, same.hart, same.size]

theorem step (same : SameBelow bound left right) (guarded : left.FetchesBelow bound) :
    right.step.1 = left.step.1 ∧ SameBelow bound left.step.2 right.step.2 := by
  cases inside : left.inside with
  | false =>
      rw [step_of_outside inside, step_of_outside (same.inside.trans inside), same.hart]
      exact ⟨rfl, same⟩
  | true =>
      obtain ⟨instruction, fetched⟩ := exists_next inside
      have again : right.next? = some instruction := by
        rw [← fetched, next?, next?, same.hart, same.words _ (guarded inside)]
      rw [step_of_next fetched, step_of_next again, same.hart]
      exact ⟨rfl, rfl, same.size, same.words⟩

theorem sameCycles (same : SameBelow bound left right)
    (guarded : ∀ cycle < count, (left.stepTimes cycle).2.FetchesBelow bound) :
    SameCycles count left right := by
  have kept := fun (left right : Machine) (same : SameBelow bound left right) => same.step
  have ends := fun (left right : Machine) (same : SameBelow bound left right) => same.inside
  obtain ⟨outcomes, after⟩ := stepTimes_lockstep kept same guarded
  obtain ⟨exit, final⟩ := runFor_lockstep kept ends same guarded
  exact ⟨outcomes, after.hart, exit, final.hart⟩

end SameBelow

theorem getElem?_words_load (fits : program.length ≤ machine.memory.size) {index : Nat}
    (below : index < program.length) :
    (machine.load program).2.memory.words[index]? = some program[index] := by
  have whole : (Store.load program).Fits machine.memory.size := by
    rw [Store.Fits, Store.start, Store.words, Nat.zero_add]
    exact fits
  have stored := getElem?_words_store whole index
  have word : (Store.load program).word? index = some program[index] :=
    List.getElem?_eq_getElem below
  rwa [word, Option.some_or] at stored

/-- Loaded once more and reset, a machine differs from a new one behind the program only. -/
theorem sameBelow_new (reachable : machine.Reachable)
    (fits : program.length ≤ machine.memory.size) :
    SameBelow program.length (machine.load program).2.reset
      ((new machine.config).load program).2 := by
  have consistent := reachable.consistent
  have size : (new machine.config).memory.size = machine.memory.size :=
    (Memory.size_zero _).trans consistent.size.symm
  have room : program.length ≤ (new machine.config).memory.size := by rwa [size]
  refine ⟨?_, ?_, fun index below => ?_⟩
  · rw [hart_load, reset, hart_load, Hart.reset, consistent.mode]
    rfl
  · rw [size_load, size]
    exact (size_load machine program).symm
  · rw [getElem?_words_load room below]
    exact (getElem?_words_load fits below).symm

/-- What older programs have left in memory makes no difference for a program that is loaded over
them, on whichever of the two machines it is seen that nothing behind the program is fetched. -/
theorem rerun_ignores_leftovers (reachable : machine.Reachable)
    (fits : program.length ≤ machine.memory.size) :
    let used := (machine.load program).2.reset
    let fresh := ((new machine.config).load program).2
    (machine.load program).1 = .ok () ∧ ((new machine.config).load program).1 = .ok () ∧
      ∀ count,
        (∀ cycle < count, (used.stepTimes cycle).2.FetchesBelow program.length) ∨
          (∀ cycle < count, (fresh.stepTimes cycle).2.FetchesBelow program.length) →
        SameCycles count used fresh := by
  intro used fresh
  have same : SameBelow program.length used fresh := sameBelow_new reachable fits
  refine ⟨load_eq_ok_iff.mpr fits, load_eq_ok_iff.mpr ?_, fun count guarded => ?_⟩
  · exact fits.trans_eq (reachable.consistent.size.trans (Memory.size_zero _).symm)
  · rcases guarded with onUsed | onFresh
    · exact same.sameCycles onUsed
    · exact (same.symm.sameCycles onFresh).symm

/-- The third word of the older program is still in memory when the loop of two words runs. -/
theorem rerun_ignores_leftovers_shorter_program :
    let config : Config := { memoryWords := 4 }
    let older : List Word := [0x00100093, 0x00200113, 0x00300193]
    let program : List Word := [0x00128293, 0xffdff06f]
    let machine := (((new config).load older).2.runFor 9).2
    let used := (machine.load program).2.reset
    let fresh := ((new machine.config).load program).2
    machine.Reachable ∧ program.length ≤ machine.memory.size ∧ used.memory ≠ fresh.memory ∧
      SameCycles 5 used fresh := by
  intro config older program machine used fresh
  have reachable : machine.Reachable :=
    .perform (.runFor 9) (.perform (.load older) (.new config) rfl) rfl
  have fits : program.length ≤ machine.memory.size := by decide
  obtain ⟨-, -, same⟩ := rerun_ignores_leftovers reachable fits
  have stale : used.memory ≠ fresh.memory := by decide
  exact ⟨reachable, fits, stale, same 5 (.inr (by decide))⟩

end Machine

end WordHart
