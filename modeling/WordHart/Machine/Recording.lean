import WordHart.Log
import WordHart.Machine.Run

/-!
Recording takes the machine as it was before an operation and says nothing about
the machine after it, so whether anything is recorded has no influence on what
the machine does.
-/

namespace WordHart.Machine

/-- Record a program that was put into memory. A refused program leaves no entry. -/
def recordLoad (machine : Machine) (program : List Word) (log : Log) : Log :=
  match (machine.load program).1 with
  | .ok () => log.record (.loaded program.length machine.memory.size)
  | .error _ => log

def recordCycle (pc : Word) (outcome : Outcome) (log : Log) : Log :=
  let log := log.record (.fetched pc outcome.instruction)
  match outcome with
  | .executed _ => log
  | .ignored instruction reason => log.record (.ignored pc instruction reason)

/-- Record a single cycle. A failed one leaves no entry. -/
def recordStep (machine : Machine) (log : Log) : Log :=
  match machine.step.1 with
  | .ok outcome => recordCycle machine.hart.pc outcome log
  | .error _ => log

/-- Record the end of a run that was not cut short. -/
def recordEnd (machine : Machine) (log : Log) : Log :=
  log.record (.finished machine.hart.pc machine.hart.counters)

/-- Record a run of at most `budget` more cycles out of `limit`. -/
def recordRunFor (limit : Nat) : (budget : Nat) → (machine : Machine) → Log → Log
  | 0, machine, log =>
      if machine.inside then log.record (.limitReached limit machine.hart.pc)
      else machine.recordEnd log
  | budget + 1, machine, log =>
      if machine.inside then
        match machine.step with
        | (.ok outcome, next) =>
            recordRunFor limit budget next (recordCycle machine.hart.pc outcome log)
        | (.error reason, next) => next.recordEnd (log.record (.fetchFailed next.hart.pc reason))
      else machine.recordEnd log

def recordRun (machine : Machine) (log : Log) : Log :=
  recordRunFor stateCount stateCount machine log

end WordHart.Machine
