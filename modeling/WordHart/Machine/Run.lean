import WordHart.Machine.Basic

namespace WordHart

inductive RunExit where
  | completed
  /-- The budget was used up with the program counter still inside memory. -/
  | stepLimit
  deriving DecidableEq

namespace Machine

def runFor : (budget : Nat) → (machine : Machine) → RunExit × Machine
  | 0, machine => if machine.inside then (.stepLimit, machine) else (.completed, machine)
  | budget + 1, machine =>
      if machine.inside then
        match machine.step with
        | (.ok _, next) => runFor budget next
        | (.error _, next) => (.completed, next)
      else (.completed, machine)

/-- The number of values that a program counter and 32 registers can take together. What a cycle
does to them depends on nothing else that a run changes, so a run of more cycles never ends. -/
def stateCount : Nat := Nat.pow 2 (33 * 32)

/-- Run until the program counter leaves memory, with no result if it never does. -/
def run (machine : Machine) : Option Machine :=
  match machine.runFor stateCount with
  | (.completed, final) => some final
  | (.stepLimit, _) => none

theorem step_of_inside {machine : Machine} (inside : machine.inside = true) :
    ∃ outcome next, machine.step = (.ok outcome, next) := by
  have bound : machine.hart.pc.toNat < machine.memory.cells.size := of_decide_eq_true inside
  have loaded : machine.memory.load machine.hart.pc =
      .ok machine.memory.cells[machine.hart.pc.toNat] := by
    simp [Memory.load, bound]
  simp [Machine.step, Hart.step_of_load loaded]

end Machine

end WordHart
