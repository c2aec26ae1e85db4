import WordHart.Word

namespace WordHart

structure Mode where
  /-- Register `x0` reads as zero and drops writes; otherwise it is an ordinary register. -/
  hardwireX0 : Bool := false
  /-- An indirect jump reads its base before it writes the link, which may be the same register. -/
  jalrReadsRs1First : Bool := false
  deriving DecidableEq

structure Config where
  memoryWords : BitVec 64 := 1024
  mode : Mode := {}
  deriving DecidableEq

end WordHart
