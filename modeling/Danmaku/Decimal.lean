import Danmaku.Single

/-! Decimal numbers, their texts, and their nearest doubles and singles. -/

namespace Danmaku

/-- The number `digits * 10 ^ exponent` with a sign, which zero has too. -/
structure Decimal where
  negative : Bool
  digits : Nat
  exponent : Int
  deriving DecidableEq

namespace Decimal

def digitOf (c : Char) : Nat := c.toNat - '0'.toNat

/-- Appends digits to a number as long as it stays within 64 bits, and counts those that are left out. -/
def absorb (n : Nat) : List Char → Nat × Nat
  | [] => (n, 0)
  | c :: cs =>
    if n * 10 + digitOf c < UInt64.size then absorb (n * 10 + digitOf c) cs else (n, cs.length + 1)

/-- The decimal of digits before and after a point and an exponent. Digits that do not fit in 64 bits are
left out; those before the point still count for the exponent. -/
def ofDigits (negative : Bool) (whole fraction : List Char) (exponent : Int) : Decimal :=
  let (n, left) := absorb 0 whole
  let (n, left') := absorb n fraction
  ⟨negative, n, exponent + left + left' - fraction.length⟩

/-- Moves trailing zeros of the digits to the exponent, at most so many. -/
def strip : Nat → Nat → Int → Nat × Int
  | 0, digits, exponent => (digits, exponent)
  | n + 1, digits, exponent =>
    if digits % 10 = 0 then strip n (digits / 10) (exponent + 1) else (digits, exponent)

/-- The form without trailing zeros; zero has the exponent `0`. -/
def normal (negative : Bool) (digits : Nat) (exponent : Int) : Decimal :=
  if digits = 0 then ⟨negative, 0, 0⟩ else
    let (digits, exponent) := strip (digits.log2 + 1) digits exponent
    ⟨negative, digits, exponent⟩

/-- How many digits there are before the point, less those after a leading `0.` that are zero. -/
def magnitude (d : Decimal) : Int := d.exponent + (Nat.toDigits 10 d.digits).length

/-- The powers of ten from which a double is scaled. -/
def maxPower : Nat := 308

def tenTo (n : Nat) : Float := .ofScientific 1 false n

/-- Multiplies a double that is not negative by a power of ten, or divides it, in steps that each round to
the nearest. -/
def scale (x : Float) (e : Int) : Float :=
  if e < -(maxPower : Int) then
    if x == 0 then x else scale (x / tenTo maxPower) (e + maxPower)
  else if e < 0 then x / tenTo (-e).toNat
  else if e ≤ maxPower then x * tenTo e.toNat
  else if x == 0 then x
  else 1 / 0
termination_by (-e).toNat
decreasing_by
  simp only [maxPower] at *
  omega

/-- The double that a decimal is read as: its digits, scaled. With few digits and a small exponent that is
the nearest double. -/
def toDouble (d : Decimal) : Float :=
  let x := scale (.ofNat d.digits) d.exponent
  if d.negative then -x else x

/-- Whether the double is infinite. -/
def overflows (d : Decimal) : Bool := d.toDouble.isInf

/-- How a decimal is written. -/
structure Style where
  /-- The least and the greatest exponent of the first digit without an exponent part. -/
  least : Int
  greatest : Int
  /-- Whether a whole number has a point and a zero. -/
  wholePoint : Bool
  /-- What is before a positive exponent. -/
  plus : List Char

def sign (d : Decimal) : List Char := if d.negative then ['-'] else []

/-- The digits with a point so many places from their left end, with zeros as needed. -/
def point (ds : List Char) (place : Int) (wholePoint : Bool) : List Char :=
  if place ≤ 0 then '0' :: '.' :: (List.replicate (-place).toNat '0' ++ ds)
  else if place < ds.length then ds.take place.toNat ++ '.' :: ds.drop place.toNat
  else ds ++ List.replicate (place.toNat - ds.length) '0' ++ if wholePoint then ['.', '0'] else []

def exponentPart (plus : List Char) (e : Int) : List Char :=
  'e' :: (if e < 0 then ['-'] else plus) ++ Nat.toDigits 10 e.natAbs

def chars (style : Style) (d : Decimal) : List Char :=
  let ds := Nat.toDigits 10 d.digits
  let first := d.magnitude - 1
  d.sign ++
    if d.digits = 0 then (if style.wholePoint then ['0', '.', '0'] else ['0'])
    else if style.least ≤ first ∧ first ≤ style.greatest then point ds d.magnitude style.wholePoint
    else (if ds.length = 1 then ds else point ds 1 false) ++ exponentPart style.plus first

end Decimal

end Danmaku
