import Mathlib
import WordHart.Proofs.Reachable
import WordHart.Proofs.Steps

/-!
Restoring takes over the counters of a snapshot unchecked, and a snapshot taken
afterwards hands them on. That counters add up can therefore only be said of
histories whose accepted snapshots have counters that do, and what a snapshot was
taken from is asked for all the way back.
-/

namespace WordHart

/-- Every cycle was either executed or ignored, as far as 64 bits can tell. -/
def Counters.Balanced (counters : Counters) : Prop :=
  counters.cycles = counters.executed + counters.ignored

theorem Counters.Balanced.record {counters : Counters} (balanced : counters.Balanced)
    (outcome : Outcome) : (counters.record outcome).Balanced := by
  unfold Balanced at balanced ⊢
  cases outcome with
  | executed instruction =>
      simp only [Counters.record, balanced]
      rw [BitVec.add_assoc, BitVec.add_assoc, BitVec.add_comm counters.ignored]
  | ignored instruction reason =>
      simp only [Counters.record, balanced]
      rw [BitVec.add_assoc]

namespace Machine

variable {machine next final : Machine} {operations : List Operation}

/-- The snapshot that an operation accepts, if it is one that restores and does not refuse. -/
def accepted? (machine : Machine) : Operation → Option Snapshot
  | .restore snapshot =>
      match machine.restore snapshot with
      | (.ok (), _) => some snapshot
      | (.error _, _) => none
  | .replace snapshot =>
      match ofSnapshot snapshot with
      | .ok _ => some snapshot
      | .error _ => none
  | _ => none

/-- The machine after a history. There is none after a run that does not end. -/
def performAll (machine : Machine) : List Operation → Option Machine
  | [] => some machine
  | operation :: later =>
      match machine.perform operation with
      | some next => next.performAll later
      | none => none

/-- The snapshots that are accepted in the course of a history. -/
def acceptedBy (machine : Machine) : List Operation → List Snapshot
  | [] => []
  | operation :: later =>
      match machine.perform operation with
      | some next => (machine.accepted? operation).toList ++ next.acceptedBy later
      | none => []

/-- A machine with a history in which only snapshots of such machines were accepted. What `source`
gives for an accepted snapshot is the machine that it was taken from. -/
inductive Genuine : Machine → Prop
  | performed {config : Config} {operations : List Operation} {final : Machine}
      (source : Snapshot → Machine)
      (performed : (new config).performAll operations = some final)
      (genuine : ∀ snapshot ∈ (new config).acceptedBy operations, Genuine (source snapshot))
      (taken : ∀ snapshot ∈ (new config).acceptedBy operations,
        (source snapshot).snapshot = snapshot) : Genuine final

/-- What every operation keeps that accepts no snapshot but allowed ones, such a history keeps. -/
theorem performAll_preserves {invariant : Machine → Prop} {allowed : Snapshot → Prop}
    (preserved : ∀ machine operation next, invariant machine →
      (∀ snapshot, machine.accepted? operation = some snapshot → allowed snapshot) →
      machine.perform operation = some next → invariant next)
    (holds : invariant machine)
    (accepted : ∀ snapshot ∈ machine.acceptedBy operations, allowed snapshot)
    (performed : machine.performAll operations = some final) : invariant final := by
  induction operations generalizing machine with
  | nil =>
      cases performed
      exact holds
  | cons operation later inductionHypothesis =>
      rw [performAll] at performed
      split at performed
      case h_1 next reached =>
        simp only [acceptedBy, reached, List.mem_append, Option.mem_toList] at accepted
        have kept := preserved machine operation next holds
          (fun snapshot now => accepted snapshot (.inl now)) reached
        exact inductionHypothesis kept (fun snapshot later => accepted snapshot (.inr later))
          performed
      case h_2 => cases performed

theorem reachable_performAll (reachable : machine.Reachable)
    (performed : machine.performAll operations = some final) : final.Reachable := by
  have preserved (machine : Machine) (operation : Operation) (next : Machine)
      (reachable : machine.Reachable)
      (_ : ∀ snapshot, machine.accepted? operation = some snapshot → True)
      (reached : machine.perform operation = some next) : next.Reachable :=
    .perform operation reachable reached
  exact performAll_preserves preserved reachable (fun _ _ => trivial) performed

theorem balanced_new (config : Config) : (new config).hart.counters.Balanced := rfl

theorem balanced_step (balanced : machine.hart.counters.Balanced) :
    machine.step.2.hart.counters.Balanced := by
  cases inside : machine.inside with
  | true =>
      obtain ⟨outcome, next, stepped⟩ := step_of_inside inside
      rw [stepped, counters_of_step stepped]
      exact balanced.record outcome
  | false => rwa [step_of_outside inside]

theorem balanced_runFor (balanced : machine.hart.counters.Balanced) (budget : Nat) :
    (machine.runFor budget).2.hart.counters.Balanced := by
  have preserved (machine : Machine) (balanced : machine.hart.counters.Balanced) :
      machine.step.2.hart.counters.Balanced := balanced_step balanced
  exact runFor_preserves preserved budget balanced

theorem balanced_run (balanced : machine.hart.counters.Balanced)
    (ended : machine.run = some final) : final.hart.counters.Balanced := by
  obtain ⟨budget, completed⟩ := runFor_of_run ended
  have kept := balanced_runFor balanced budget
  rwa [completed] at kept

theorem balanced_perform (balanced : machine.hart.counters.Balanced) {operation : Operation}
    (accepted : ∀ snapshot, machine.accepted? operation = some snapshot →
      snapshot.counters.Balanced)
    (performed : machine.perform operation = some next) : next.hart.counters.Balanced := by
  cases operation with
  | load program =>
      cases performed
      rwa [hart_load]
  | step =>
      cases performed
      exact balanced_step balanced
  | run => exact balanced_run balanced performed
  | runFor budget =>
      cases performed
      exact balanced_runFor balanced budget
  | reset =>
      cases performed
      rfl
  | restore snapshot =>
      cases performed
      rcases restore_cases machine snapshot with ⟨reason, refused, _⟩ | ⟨_, _, restored⟩
      · rwa [refused]
      · rw [restored]
        apply accepted
        simp only [accepted?, restored]
  | replace snapshot =>
      simp only [perform] at performed
      split at performed
      case h_1 replacement described =>
        cases performed
        obtain ⟨_, rfl⟩ := ofSnapshot_eq_ok_iff.mp described
        apply accepted
        simp only [accepted?, described]
      case h_2 =>
        cases performed
        exact balanced

theorem balanced_performAll (balanced : machine.hart.counters.Balanced)
    (accepted : ∀ snapshot ∈ machine.acceptedBy operations, snapshot.counters.Balanced)
    (performed : machine.performAll operations = some final) : final.hart.counters.Balanced := by
  have preserved (machine : Machine) (operation : Operation) (next : Machine)
      (balanced : machine.hart.counters.Balanced)
      (accepted : ∀ snapshot, machine.accepted? operation = some snapshot →
        snapshot.counters.Balanced)
      (reached : machine.perform operation = some next) : next.hart.counters.Balanced :=
    balanced_perform balanced accepted reached
  exact performAll_preserves preserved balanced accepted performed

theorem Genuine.balanced (genuine : machine.Genuine) : machine.hart.counters.Balanced := by
  induction genuine with
  | performed source performed _ taken inductionHypothesis =>
      refine balanced_performAll (balanced_new _) (fun snapshot accepted => ?_) performed
      rw [← taken snapshot accepted]
      exact inductionHypothesis snapshot accepted

end Machine

end WordHart
