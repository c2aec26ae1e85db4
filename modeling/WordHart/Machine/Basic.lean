import WordHart.Hart.Execute

namespace WordHart

inductive LoadError where
  | tooLarge (words capacity : Nat)
  | memory (reason : AccessError)
  deriving DecidableEq

def LoadError.text : LoadError → String
  | tooLarge words capacity =>
      "program of " ++ Numeral.decimal words ++ " words does not fit in " ++
        Numeral.decimal capacity ++ " words of memory"
  | memory reason => reason.text

/-- A hart, its memory and the configuration that both were built from. Every operation is defined
where they have drifted from it, too. -/
structure Machine where
  hart : Hart
  memory : Memory
  config : Config
  deriving DecidableEq

namespace Machine

/-- The machine that a configuration describes, with zeros everywhere. -/
def new (config : Config) : Machine :=
  ⟨.new config.mode, .zero config.memoryWords.toNat, config⟩

/-- Put a program at the start of memory; the words past its end stay. -/
def load (machine : Machine) (program : List Word) : Except LoadError Unit × Machine :=
  let capacity := machine.memory.size
  if capacity < program.length then (.error (.tooLarge program.length capacity), machine)
  else
    let (written, memory) := machine.memory.write 0 program
    (written.mapError .memory, { machine with memory })

def step (machine : Machine) : Except AccessError Outcome × Machine :=
  let (outcome, hart) := machine.hart.step machine.memory
  (outcome, { machine with hart })

/-- Reset the hart; memory is kept. -/
def reset (machine : Machine) : Machine := { machine with hart := machine.hart.reset }

def inside (machine : Machine) : Bool := machine.memory.contains machine.hart.pc

theorem load_of_fits {machine : Machine} {program : List Word}
    (fits : program.length ≤ machine.memory.size) :
    machine.load program =
      (.ok (), { machine with memory := (machine.memory.write 0 program).2 }) := by
  have small : ¬ machine.memory.size < program.length := Nat.not_lt_of_le fits
  have inside : 0 + program.length ≤ machine.memory.size := by simpa using fits
  simp only [load, small, if_false, Memory.write_of_fits inside]
  rfl

theorem load_of_exceeds {machine : Machine} {program : List Word}
    (exceeds : machine.memory.size < program.length) :
    machine.load program = (.error (.tooLarge program.length machine.memory.size), machine) :=
  if_pos exceeds

@[simp] theorem size_load (machine : Machine) (program : List Word) :
    (machine.load program).2.memory.size = machine.memory.size := by
  by_cases fits : program.length ≤ machine.memory.size
  · simp [load_of_fits fits]
  · rw [load_of_exceeds (Nat.lt_of_not_le fits)]

@[simp] theorem hart_load (machine : Machine) (program : List Word) :
    (machine.load program).2.hart = machine.hart := by
  by_cases fits : program.length ≤ machine.memory.size
  · rw [load_of_fits fits]
  · rw [load_of_exceeds (Nat.lt_of_not_le fits)]

@[simp] theorem config_load (machine : Machine) (program : List Word) :
    (machine.load program).2.config = machine.config := by
  by_cases fits : program.length ≤ machine.memory.size
  · rw [load_of_fits fits]
  · rw [load_of_exceeds (Nat.lt_of_not_le fits)]

@[simp] theorem memory_step (machine : Machine) : machine.step.2.memory = machine.memory := rfl

@[simp] theorem config_step (machine : Machine) : machine.step.2.config = machine.config := rfl

end Machine

end WordHart
