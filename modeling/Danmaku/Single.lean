/-! Single-precision numbers, by their bits. The arithmetic is that of the core `Float32`, whose one NaN is
not enough here: a NaN keeps its sign and its payload, because the total order tells NaNs apart. This
module adds the exact operations that the core type lacks or hides from proofs: remainder, rounding to
integers, conversion from and to double precision, and the total order. All of them work on the unpacked
form of a number, a sign, a mantissa and a power of two. -/

namespace Danmaku

/-- A single-precision number. Two are the same where their bits are: `-0` is not `0`. -/
structure Single where
  ofBits ::
  toBits : UInt32
  deriving DecidableEq

namespace Single

open Float.Model (UnpackedFloat Format)

def nan : Single := .ofBits 0x7fc00000

/-- What an operation without a result gives, such as `0 / 0`. -/
def invalid : Single := .ofBits 0xffc00000

def infinity : Single := .ofBits 0x7f800000

def toFloat32 (x : Single) : Float32 := .ofBits x.toBits

def ofFloat32 (x : Float32) : Single := if x.isNaN then invalid else .ofBits x.toBits

def unpack (x : Single) : UnpackedFloat := x.toFloat32.toModel.unpack

def pack (u : UnpackedFloat) : Single := .ofFloat32 (.ofModel (Float32.Model.pack u))

def abs (x : Single) : Single := .ofBits (x.toBits &&& 0x7fffffff)

def isNaN (x : Single) : Bool := infinity.toBits < x.abs.toBits

def isFinite (x : Single) : Bool := x.abs.toBits < infinity.toBits

/-- The NaN that arithmetic makes of a NaN: the quiet one of the same sign and payload. -/
def quiet (x : Single) : Single := .ofBits (x.toBits ||| 0x400000)

/-- An operation of one operand; a NaN is passed on. -/
@[inline] def lift (op : Float32 → Float32) (x : Single) : Single :=
  if x.isNaN then x.quiet else .ofFloat32 (op x.toFloat32)

/-- An operation of two operands; a NaN is passed on, the first of two. -/
@[inline] def combine (op : Float32 → Float32 → Float32) (x y : Single) : Single :=
  if x.isNaN then x.quiet else if y.isNaN then y.quiet else .ofFloat32 (op x.toFloat32 y.toFloat32)

instance : Add Single := ⟨combine (· + ·)⟩

instance : Sub Single := ⟨combine (· - ·)⟩

instance : Mul Single := ⟨combine (· * ·)⟩

instance : Div Single := ⟨combine (· / ·)⟩

/-- Of a NaN too, the sign is turned over. -/
instance : Neg Single := ⟨fun x => .ofBits (x.toBits ^^^ 0x80000000)⟩

def sqrt (x : Single) : Single := x.lift Float32.sqrt

instance : LT Single := ⟨fun x y => x.toFloat32 < y.toFloat32⟩

instance : LE Single := ⟨fun x y => x.toFloat32 ≤ y.toFloat32⟩

instance : DecidableLT Single := fun x y => inferInstanceAs (Decidable (x.toFloat32 < y.toFloat32))

instance : DecidableLE Single := fun x y => inferInstanceAs (Decidable (x.toFloat32 ≤ y.toFloat32))

/-- Rounds to the nearest single, ties to even. -/
def ofNat (n : Nat) : Single := .ofFloat32 (.ofNat n)

/-- Rounds to the nearest single, ties to even. -/
def ofInt (n : Int) : Single := .ofFloat32 (.ofInt n)

instance (n : Nat) : OfNat Single n := ⟨.ofNat n⟩

instance : OfScientific Single := ⟨fun m negative e => .ofFloat32 (.ofScientific m negative e)⟩

/-- The gap between `1` and the next number. -/
def epsilon : Single := .ofBits 0x34000000

/-- The grid of a uniform draw, `2 ^ -24`. -/
def drawUnit : Single := .ofBits 0x33800000

/-- One degree in radians, `pi / 180`. -/
def radiansPerDegree : Single := .ofBits 0x3c8efa35

/-- One radian in degrees, `180 / pi`. -/
def degreesPerRadian : Single := .ofBits 0x42652ee1

/-- Rounds to the nearest single, ties to even; there is one NaN among the doubles. -/
def ofDouble (x : Float) : Single :=
  match x.toModel.unpack with
  | .finite s m e _ => pack (.round Format.binary32 s m e)
  | u => pack u

/-- Exact: every single is a double. -/
def toDouble (x : Single) : Float :=
  match x.unpack with
  | .finite s m e _ => .ofModel (Float.Model.pack (.round Format.binary64 s m e))
  | u => .ofModel (Float.Model.pack u)

/-- At least `floor`; NaN becomes `floor`. -/
def raisedTo (x floor : Single) : Single := if floor < x then x else floor

/-- Into `[lo, hi]`; NaN stays. -/
def clamp (x lo hi : Single) : Single := if x < lo then lo else if hi < x then hi else x

/-- The remainder of a division that truncates, with the sign of `x`. Exact. -/
def rem (x y : Single) : Single :=
  match x.unpack, y.unpack with
  | .notANumber, _ => x.quiet
  | _, .notANumber => y.quiet
  | .infinity _, _ | _, .zero _ => invalid
  | _, .infinity _ | .zero _, _ => x
  | .finite s m e _, .finite _ n f _ =>
    let g := min e f
    pack (.round Format.binary32 s ((m <<< (e - g).toNat) % (n <<< (f - g).toNat)) g)

/-- The remainder in `[0, y]` for positive `y`: a negative remainder is raised by `y`, which can round
to `y` itself. -/
def modulo (x y : Single) : Single :=
  let r := x.rem y
  if r < 0 then r + y.abs else r

/-- The nearest integer, halves away from zero; none for NaN and the infinities. -/
def nearestInt? (x : Single) : Option Int :=
  match x.unpack with
  | .zero _ => some 0
  | .finite s m e _ =>
    let n : Nat := if 0 ≤ e then m <<< e.toNat else (m + 1 <<< ((-e).toNat - 1)) >>> (-e).toNat
    some (s.apply n)
  | _ => none

/-- The nearest integer within the range of `Int32`; NaN becomes `0`. -/
def nearestInt32 (x : Single) : Int32 :=
  match x.nearestInt? with
  | some n => if n < Int32.minValue.toInt then Int32.minValue
    else if Int32.maxValue.toInt < n then Int32.maxValue else Int32.ofInt n
  | none => if x < 0 then Int32.minValue else if 0 < x then Int32.maxValue else 0

/-- Orders the bit patterns as numbers: `-0` before `0`, a NaN outside of the infinity of its sign. -/
def orderKey (x : Single) : Int :=
  let b := x.toBits
  if b &&& 0x80000000 = 0 then b.toNat else -1 - (b &&& 0x7fffffff).toNat

/-- The total order of all numbers; a NaN comes first or last, as its sign says. -/
def totalLe (x y : Single) : Bool := x.orderKey ≤ y.orderKey

theorem totalLe_trans (x y z : Single) (h : x.totalLe y = true) (h' : y.totalLe z = true) :
    x.totalLe z = true := by
  simp only [totalLe, decide_eq_true_eq] at *
  omega

theorem totalLe_total (x y : Single) : (x.totalLe y || y.totalLe x) = true := by
  simp only [totalLe, Bool.or_eq_true, decide_eq_true_eq]
  omega

/-- Linear interpolation `x * (1 - t) + y * t`. -/
def lerp (x y t : Single) : Single := x * (1 - t) + y * t

end Single

end Danmaku
