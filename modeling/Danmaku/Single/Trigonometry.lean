import Danmaku.Single

/-! Sine and cosine, and their inverses. An angle is taken apart into quarter turns and a rest of at most an
eighth of a turn; a polynomial in double precision gives the sine or the cosine of the rest, which is then
rounded. The error is a little above half a unit of the last place. -/

namespace Danmaku.Single

/-- The double nearest to a quarter turn in radians, in two parts, so that small multiples of each are
exact. -/
def quarterTurnHigh : Float := .ofBits 0x3ff921fb54000000

def quarterTurnLow : Float := .ofBits 0x3e110b4600000000

/-- Quarter turns to a radian, `2 / pi`. -/
def turnsPerRadian : Float := .ofBits 0x3fe45f306dc9c883

/-- Quarter turns to a radian in units of `2 ^ -200`, for angles whose quarter turns do not fit a double. -/
def turnsPerRadianBits : Nat := 0xa2f9836e4e441529fc2757d1f534ddc0db6295993c439041fe

/-- One unit of `2 ^ -62` of a quarter turn in radians, `pi * 2 ^ -63`. -/
def quarterTurnUnit : Float := .ofBits 0x3c1921fb54442d18

/-- The quarter turns in an angle and the rest in radians, which is rounded once. An angle of `120` or more is
multiplied by `2 / pi` in whole numbers, and the rest keeps `62` bits of a quarter turn. -/
def quarters (x : Single) : Int × Float :=
  if x.abs < 120 then
    let y := x.toDouble
    let n := (y * turnsPerRadian + 0.5).floor
    (n.toInt64.toInt, y - n * quarterTurnHigh - n * quarterTurnLow)
  else
    match x.unpack with
    | .finite s m e _ =>
      let scaled := m * turnsPerRadianBits
      let turns : Int := if e < 138 then scaled >>> (138 - e).toNat else scaled <<< (e - 138).toNat
      let n := (turns + 0x2000000000000000) / 0x4000000000000000
      let rest := Float.ofInt (turns - n * 0x4000000000000000) * quarterTurnUnit
      if s == .negative then (-n, -rest) else (n, rest)
    | _ => (0, 0 / 0)

/-- The sine of at most an eighth of a turn. -/
def sineOfRest (x : Float) : Float :=
  let x2 := x * x
  let x3 := x * x2
  x + x3 * .ofBits 0xbfc555545995a603 +
    x3 * x2 * (.ofBits 0x3f81107605230bc4 + x2 * .ofBits 0xbf2994eb3774cf24)

/-- The cosine of at most an eighth of a turn. -/
def cosineOfRest (x : Float) : Float :=
  let x2 := x * x
  let x4 := x2 * x2
  1 + x2 * .ofBits 0xbfdffffffd0c621c + x4 * .ofBits 0x3fa55553e1068f19 +
    x4 * x2 * (.ofBits 0xbf56c087e89a359d + x2 * .ofBits 0x3ef99343027bf8c3)

/-- The sine of a number of quarter turns and a rest. -/
def sineOfQuarters (quarters : Int) (rest : Float) : Float :=
  match quarters % 4 with
  | 0 => sineOfRest rest
  | 1 => cosineOfRest rest
  | 2 => -sineOfRest rest
  | _ => -cosineOfRest rest

/-- An angle below `2 ^ -12` is its own sine. -/
def sine (radians : Single) : Single :=
  if radians.isNaN then radians.quiet
  else if radians.abs < .ofBits 0x39800000 then radians
  else
    let (n, rest) := radians.quarters
    ofDouble (sineOfQuarters n rest)

/-- A quarter turn ahead of the sine. -/
def cosine (radians : Single) : Single :=
  if radians.isNaN then radians.quiet
  else
    let (n, rest) := radians.quarters
    ofDouble (sineOfQuarters (n + 1) rest)

/-- Through double precision, then rounded. -/
def arccosine (x : Single) : Single :=
  if x.isNaN then x.quiet else ofDouble (Float.acos x.toDouble)

/-- The angle of the point `(x, y)`, through double precision. -/
def angleOf (y x : Single) : Single :=
  if x.isNaN then x.quiet
  else if y.isNaN then y.quiet
  else ofDouble (Float.atan2 y.toDouble x.toDouble)

end Danmaku.Single
