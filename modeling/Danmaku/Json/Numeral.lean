import Danmaku.Json

/-! The texts of leaves other than quoted text: `null`, `true`, `false` and numerals. A numeral has no zero
before other digits and at least one digit on each side of a point. One that rounds to infinity in double
precision has no value. -/

namespace Danmaku.Json

/-- The integers that stay integers: those of 64 bits, with or without a sign. -/
def fits (n : Int) : Bool := Int64.minValue.toInt ≤ n && n < UInt64.size

def natOfDigits (ds : List Char) : Nat := ds.foldl (fun n c => n * 10 + Decimal.digitOf c) 0

/-- The digits at the start, at least one, and the rest. -/
def digits? (cs : List Char) : Option (List Char × List Char) :=
  match cs.takeWhile Char.isDigit with
  | [] => none
  | ds => some (ds, cs.dropWhile Char.isDigit)

/-- The digits of a whole part. -/
def whole? (cs : List Char) : Option (List Char × List Char) :=
  match digits? cs with
  | some ('0' :: _ :: _, _) => none
  | r => r

/-- The digits after a point, if there is one. -/
def fraction? : List Char → Option (List Char × List Char)
  | '.' :: cs => digits? cs
  | cs => some ([], cs)

/-- The exponent, which has to end the numeral. -/
def exponent? : List Char → Option Int
  | [] => some 0
  | e :: cs =>
    if e = 'e' ∨ e = 'E' then
      let (negative, cs) : Bool × List Char :=
        match cs with
        | '-' :: cs => (true, cs)
        | '+' :: cs => (false, cs)
        | cs => (false, cs)
      match digits? cs with
      | some (ds, []) => some (if negative then -natOfDigits ds else natOfDigits ds)
      | _ => none
    else none

def ofDecimal (d : Decimal) : Atom := if d.overflows then .tooGreat else .value (.number d)

/-- A numeral without its sign. Minus zero is not an integer. -/
def unsigned? (negative : Bool) (cs : List Char) : Option Atom := do
  let (whole, cs) ← whole? cs
  let n : Int := if negative then -natOfDigits whole else natOfDigits whole
  if cs.isEmpty ∧ fits n ∧ ¬(negative ∧ n = 0) then return .value (.int n)
  let (fraction, cs) ← fraction? cs
  let e ← exponent? cs
  return ofDecimal (.ofDigits negative whole fraction e)

def numeral? : List Char → Option Atom
  | '-' :: cs => unsigned? true cs
  | cs => unsigned? false cs

/-- The leaf of a word, which is a name or a numeral. -/
def ofWord? (word : List Char) : Option Atom :=
  if word = ['n', 'u', 'l', 'l'] then some (.value .null)
  else if word = ['t', 'r', 'u', 'e'] then some (.value (.bool true))
  else if word = ['f', 'a', 'l', 's', 'e'] then some (.value (.bool false))
  else numeral? word

/-- Decimals are written in full from `10 ^ -6` and below `10 ^ 13`, always with a point. -/
def decimalStyle : Decimal.Style := { least := -6, greatest := 12, wholePoint := true, plus := ['+'] }

def intChars (n : Int) : List Char := (if n < 0 then ['-'] else []) ++ Nat.toDigits 10 n.natAbs

end Danmaku.Json
