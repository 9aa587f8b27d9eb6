import Danmaku.Single

/-! A permuted congruential generator with 64 bits of state and 32 bits of output. A seed is spread over
state and increment by a generator of the same kind. -/

namespace Danmaku

structure Pcg where
  state : UInt64
  increment : UInt64
  deriving DecidableEq

namespace Pcg

def multiplier : UInt64 := 6364136223846793005

/-- The permutation of a state to an output: a shift-xor, then a rotation by the top bits. -/
def output (s : UInt64) : UInt32 :=
  let w := (((s >>> 18) ^^^ s) >>> 27).toUInt32
  let r := (s >>> 59).toUInt32
  (w >>> r) ||| (w <<< ((32 - r) &&& 31))

/-- The next state of the generator that spreads seeds. -/
def spread (s : UInt64) : UInt64 := s * multiplier + 11634580027462260723

def join (low high : UInt32) : UInt64 := low.toUInt64 ||| (high.toUInt64 <<< 32)

def ofSeed (seed : UInt64) : Pcg :=
  let a := spread seed
  let b := spread a
  let c := spread b
  let d := spread c
  let increment := join (output c) (output d) ||| 1
  ⟨(join (output a) (output b) + increment) * multiplier + increment, increment⟩

def next (g : Pcg) : UInt32 × Pcg := (output g.state, { g with state := g.state * multiplier + g.increment })

/-- A uniform draw from the multiples of `2 ^ -24` in `[0, 1)`. -/
def draw (g : Pcg) : Single × Pcg :=
  let (w, g) := g.next
  (.ofNat (w >>> 8).toNat * .drawUnit, g)

end Pcg

end Danmaku
