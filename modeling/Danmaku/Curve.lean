import Danmaku.Scalar
import Danmaku.Search
import Danmaku.Sorting

/-! Curves through keyframes: cubic Hermite between two neighbours and constant outside. The keys of a
curve are in the order of their times, so the segment around a time is found by searching for the first
key after it. -/

namespace Danmaku

structure Keyframe (α : Type) where
  time : α
  value : α
  inTangent : α
  outTangent : α
  deriving DecidableEq

namespace Keyframe

variable {α : Type} [Scalar α]

def flat (time value : α) : Keyframe α := ⟨time, value, 0, 0⟩

def notAfter (a b : Keyframe α) : Bool := Scalar.totalLe a.time b.time

theorem notAfter_trans (a b c : Keyframe α) (h : notAfter a b = true) (h' : notAfter b c = true) :
    notAfter a c = true :=
  Scalar.totalLe_trans a.time b.time c.time h h'

theorem notAfter_total (a b : Keyframe α) : (notAfter a b || notAfter b a) = true :=
  Scalar.totalLe_total a.time b.time

end Keyframe

structure Curve (α : Type) [Scalar α] where
  keys : List (Keyframe α)
  sorted : keys.Pairwise (Keyframe.notAfter · ·)
  deriving DecidableEq

namespace Curve

variable {α : Type} [Scalar α]

/-- Sorts the keys by time; keys of one time stay in the given order. -/
def ofKeys (keys : List (Keyframe α)) : Curve α :=
  ⟨Sorting.sort Keyframe.notAfter keys,
    Sorting.pairwise_sort Keyframe.notAfter_trans Keyframe.notAfter_total keys⟩

/-- The identity on `[0, 1]`. -/
def linear : Curve α := ofKeys [⟨0, 0, 1, 1⟩, ⟨1, 1, 1, 1⟩]

def constant (value : α) : Curve α := ofKeys [.flat 0 value]

def easeIn : Curve α := ofKeys [⟨0, 0, 0, 0⟩, ⟨1, 1, 2, 2⟩]

def easeOut : Curve α := ofKeys [⟨0, 0, 2, 2⟩, ⟨1, 1, 0, 0⟩]

def easeInOut : Curve α := ofKeys [.flat 0 0, .flat 1 1]

instance : Inhabited (Curve α) := ⟨linear⟩

def duration (c : Curve α) : α :=
  match c.keys.head?, c.keys.getLast? with
  | some first, some last => last.time - first.time
  | _, _ => 0

/-- The place of the first key after `t`, as the search finds it. -/
def reached (c : Curve α) (t : α) : Nat := Search.partitionPoint (·.time ≤ t) c.keys.toArray

/-- The cubic with the values and tangents of two keys at their times. -/
def hermite (a b : Keyframe α) (t : α) : α :=
  let dt := b.time - a.time
  if dt ≤ 0 then b.value else
    let s := (t - a.time) / dt
    let s2 := s * s
    let s3 := s2 * s
    (2 * s3 - 3 * s2 + 1) * a.value + (s3 - 2 * s2 + s) * dt * a.outTangent +
      (-2 * s3 + 3 * s2) * b.value + (s3 - s2) * dt * b.inTangent

/-- Takes each key's value at its time, and the outer values outside of the keys and at NaN. There is no value where a
key that is read is out of range. -/
def evaluate? (c : Curve α) (t : α) : Option α :=
  match c.keys.head?, c.keys.getLast? with
  | some first, some last =>
    if Scalar.isNaN t then some first.value
    else if t ≤ first.time then some first.value
    else if last.time ≤ t then some last.value
    else (Search.around? c.keys.toArray (c.reached t)).map fun (a, b) => hermite a b t
  | _, _ => some 0

/-- The value of a curve, `0` where it has none. -/
def evaluate (c : Curve α) (t : α) : α := (c.evaluate? t).getD 0

end Curve

end Danmaku
