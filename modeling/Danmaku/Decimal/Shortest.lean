import Danmaku.Decimal

/-! The shortest decimal that reads back as a number, and decimals of fixed places. A binary number stands for
the interval of numbers that round to it, whose ends belong to it where its mantissa is even. Of the grids
`10 ^ k`, the coarsest with a point in the interval gives the fewest digits; where both neighbours of the
number on it are inside, the nearer one is taken, and a tie goes as the format says. -/

namespace Danmaku.Decimal

open Float.Model (UnpackedFloat Format)

/-- The interval that rounds to `m * 2 ^ e`, in quarters of the last place. -/
structure Rounding where
  low : Nat
  middle : Nat
  high : Nat
  closed : Bool

/-- The least exponent of a mantissa. -/
def leastExponent (f : Format) : Int :=
  2 - (1 <<< (f.exponentBits - 1) : Nat) - f.mantissaBitsWithoutImplicit

/-- The gap below a power of two is half as wide, but for the least one. -/
def rounding (f : Format) (m : Nat) (e : Int) : Rounding where
  low := 4 * m - if m = 1 <<< f.mantissaBitsWithoutImplicit ∧ leastExponent f < e then 1 else 2
  middle := 4 * m
  high := 4 * m + 2
  closed := m % 2 = 0

/-- Which of two grid points is taken for a number in the middle between them: the even one, or the one that
is farther from zero. -/
inductive Tie where
  | even | away
  deriving DecidableEq

/-- Whether a number in the middle between two grid points goes to the lower one. -/
def Tie.lower (below : Nat) : Tie → Bool
  | even => below % 2 = 0
  | away => false

/-- The point of the grid `10 ^ k` in an interval around `2 ^ e` that is nearest to its middle, over `10 ^ k`.
All is measured in a unit that makes both the quarter place and the grid whole. -/
def gridPoint? (tie : Tie) (r : Rounding) (e k : Int) : Option Nat :=
  let quarter := Nat.pow 2 (e - 2).toNat * Nat.pow 10 (-k).toNat
  let step := Nat.pow 10 k.toNat * Nat.pow 2 (2 - e).toNat
  let inside (c : Nat) : Bool :=
    if r.closed then r.low * quarter ≤ c * step && c * step ≤ r.high * quarter
    else r.low * quarter < c * step && c * step < r.high * quarter
  let below := r.middle * quarter / step
  let twice := 2 * (r.middle * quarter)
  let half := (2 * below + 1) * step
  let nearBelow : Bool := twice < half || twice = half && tie.lower below
  if inside below && (nearBelow || !inside (below + 1)) then some below
  else if inside (below + 1) then some (below + 1)
  else none

/-- Tries so many grids, from `10 ^ k` on to finer ones. -/
def coarsest (tie : Tie) (r : Rounding) (e : Int) : Nat → Int → Nat × Int
  | 0, k => (r.middle / 4 <<< e.toNat, k)
  | n + 1, k =>
    match gridPoint? tie r e k with
    | some c => if c = 0 then coarsest tie r e n (k - 1) else (c, k)
    | none => coarsest tie r e n (k - 1)

/-- An exponent `k` such that `10 ^ k` is above all numbers of so many binary digits. -/
def decimalBound (binary : Int) : Int := binary * 30103 / 100000 + 2

/-- The shortest decimal that reads back; none for NaN and the infinities. -/
def shortest? (f : Format) (tie : Tie) : UnpackedFloat → Option Decimal
  | .zero s => some ⟨s == .negative, 0, 0⟩
  | .finite s m e _ =>
    let (digits, exponent) := coarsest tie (rounding f m e) e 24 (decimalBound (m.log2 + 1 + e))
    some (.normal (s == .negative) digits exponent)
  | _ => none

/-- The shortest decimal of a double. -/
def ofDouble? (x : Float) : Option Decimal := shortest? Format.binary64 .even x.toModel.unpack

end Danmaku.Decimal

namespace Danmaku.Single

/-- The shortest decimal of a single. -/
def shortest? (tie : Decimal.Tie) (x : Single) : Option Decimal :=
  Decimal.shortest? Float.Model.Format.binary32 tie x.unpack

/-- The value in units of `10 ^ -places`, rounded to the nearest, a half to the even one. -/
def fixedUnits (m : Nat) (e : Int) (places : Nat) : Nat :=
  let num := m * Nat.pow 10 places * Nat.pow 2 e.toNat
  let den := Nat.pow 2 (-e).toNat
  let q := num / den
  let r := num % den
  if 2 * r < den ∨ (2 * r = den ∧ q % 2 = 0) then q else q + 1

/-- How numbers that are not finite are written. -/
def specialText (x : Single) : String := if x.isNaN then "NaN" else if x < 0 then "-inf" else "inf"

/-- A text with so many places. -/
def fixedText (places : Nat) (x : Single) : String :=
  let write (s : Float.Model.UnpackedFloat.Sign) (units : Nat) : String :=
    let ds := Nat.toDigits 10 units
    let ds := List.replicate (places + 1 - ds.length) '0' ++ ds
    let sign := if s == .negative then ['-'] else []
    .ofList (sign ++ ds.take (ds.length - places) ++ '.' :: ds.drop (ds.length - places))
  match x.unpack with
  | .zero s => write s 0
  | .finite s m e _ => write s (fixedUnits m e places)
  | _ => x.specialText

/-- The shortest text in a style; a tie goes away from zero. -/
def text (style : Decimal.Style) (x : Single) : String :=
  match x.shortest? .away with
  | some d => .ofList (d.chars style)
  | none => x.specialText

end Danmaku.Single

namespace Danmaku.Decimal

/-- The nearest single to the nearest double. -/
def toSingle (d : Decimal) : Single := .ofDouble d.toDouble

end Danmaku.Decimal
