import WordHart.Config
import WordHart.Memory
import WordHart.Register

namespace WordHart

structure Counters where
  cycles : BitVec 64 := 0
  executed : BitVec 64 := 0
  ignored : BitVec 64 := 0
  deriving DecidableEq

def Counters.text (counters : Counters) : String :=
  "cycles=" ++ Numeral.decimal counters.cycles.toNat ++
    " executed=" ++ Numeral.decimal counters.executed.toNat ++
    " ignored=" ++ Numeral.decimal counters.ignored.toNat

/-- One hardware thread. Its program counter is a word index. The register file may hold any word in
`x0`, whatever the mode; the wiring is a matter of `read` and `write` alone. -/
structure Hart where
  registers : RegisterFile
  pc : Word
  mode : Mode
  counters : Counters
  deriving DecidableEq

namespace Hart

def new (mode : Mode) : Hart := ⟨.zero, 0, mode, {}⟩

/-- Whether a register is the constant zero in a hart's mode. -/
def wired (hart : Hart) (register : Register) : Bool :=
  hart.mode.hardwireX0 && register = Register.x0

def read (hart : Hart) (register : Register) : Word :=
  if hart.wired register then 0 else hart.registers.read register

def write (hart : Hart) (register : Register) (value : Word) : Hart :=
  if hart.wired register then hart
  else { hart with registers := hart.registers.write register value }

/-- Read the word at the program counter and advance past it. -/
def fetch (hart : Hart) (memory : Memory) : Except AccessError Word × Hart :=
  match memory.load hart.pc with
  | .ok word => (.ok word, { hart with pc := hart.pc + 1 })
  | .error reason => (.error reason, hart)

/-- Registers, program counter and counters at zero; the mode is kept. -/
def reset (hart : Hart) : Hart := new hart.mode

@[simp] theorem pc_write (hart : Hart) (register : Register) (value : Word) :
    (hart.write register value).pc = hart.pc := by
  unfold write
  split <;> rfl

@[simp] theorem mode_write (hart : Hart) (register : Register) (value : Word) :
    (hart.write register value).mode = hart.mode := by
  unfold write
  split <;> rfl

@[simp] theorem counters_write (hart : Hart) (register : Register) (value : Word) :
    (hart.write register value).counters = hart.counters := by
  unfold write
  split <;> rfl

theorem read_write (hart : Hart) (target register : Register) (value : Word) :
    (hart.write target value).read register =
      if target = register ∧ ¬ hart.wired target then value else hart.read register := by
  cases wiring : hart.wired target with
  | true => simp [write, wiring]
  | false =>
      have written : hart.write target value =
          { hart with registers := hart.registers.write target value } := by
        simp [write, wiring]
      have same : Hart.wired { hart with registers := hart.registers.write target value } register =
          hart.wired register := rfl
      simp only [written, read, same, RegisterFile.read_write]
      by_cases aliased : target = register
      · subst aliased
        simp [wiring]
      · simp [aliased]

end Hart

end WordHart
