/-! When a parameter of a running pattern is drawn again: at every use, once per run of the pattern, or
at chosen iterations of an enclosing loop. -/

namespace Danmaku

/-- The iterations of a loop at which a parameter is drawn again. -/
structure RerollRule where
  /-- Which enclosing loop, the innermost being `0`. -/
  depth : UInt32 := 0
  every : Bool := false
  period : UInt32 := 1
  /-- Bit `n` chooses iteration `n` of each period. -/
  mask : UInt32 := 0
  deriving DecidableEq

namespace RerollRule

def everyIteration (depth : UInt32) : RerollRule := { depth, every := true }

def masked (depth period mask : UInt32) : RerollRule := { depth, period, mask }

/-- Whether the iteration after so many finished ones is chosen. The period counts as within `1..32`. -/
def selects (r : RerollRule) (finished : UInt32) : Bool :=
  r.every || r.mask.toNat.testBit (finished.toNat % max 1 (min 32 r.period.toNat))

end RerollRule

inductive Reroll where
  | always | once | atLoops (rule : RerollRule)
  deriving DecidableEq

end Danmaku
