import WordHart.Text.Numeral
import WordHart.Word

namespace WordHart

/-- The number of a general-purpose register, five bits wide. -/
structure Register where
  index : BitVec 5
  deriving DecidableEq

namespace Register

/-- The register that the five lowest bits of `n` name. -/
def ofNat (n : Nat) : Register := ⟨BitVec.ofNat 5 n⟩

def x0 : Register := ⟨0⟩

def text (register : Register) : String := "x" ++ Numeral.decimal register.index.toNat

end Register

structure RegisterFile where
  cells : Vector Word 32
  deriving DecidableEq

namespace RegisterFile

def zero : RegisterFile := ⟨Vector.replicate 32 0⟩

def read (file : RegisterFile) (register : Register) : Word :=
  have bound : register.index.toNat < 32 := register.index.isLt
  file.cells[register.index.toNat]

def write (file : RegisterFile) (register : Register) (value : Word) : RegisterFile :=
  ⟨file.cells.set register.index.toNat value register.index.isLt⟩

def toList (file : RegisterFile) : List Word := file.cells.toList

@[simp] theorem read_write (file : RegisterFile) (target register : Register) (value : Word) :
    (file.write target value).read register =
      if target = register then value else file.read register := by
  by_cases same : target = register
  · subst same
    simp [read, write]
  · have different : target.index.toNat ≠ register.index.toNat := by
      intro equal
      cases target
      cases register
      exact same (congrArg Register.mk (BitVec.eq_of_toNat_eq equal))
    simp [read, write, same, Vector.getElem_set_ne _ _ different]

@[simp] theorem read_zero (register : Register) : zero.read register = 0 := by
  simp [read, zero]

theorem ext_read {left right : RegisterFile}
    (agree : ∀ register, left.read register = right.read register) : left = right := by
  cases left with
  | mk left =>
    cases right with
    | mk right =>
      congr 1
      apply Vector.ext
      intro i bound
      have reading := agree ⟨BitVec.ofNat 5 i⟩
      have index : i % 32 = i := Nat.mod_eq_of_lt bound
      simpa [read, BitVec.toNat_ofNat, index] using reading

@[simp] theorem length_toList (file : RegisterFile) : file.toList.length = 32 := by
  simp [toList]

end RegisterFile

end WordHart
