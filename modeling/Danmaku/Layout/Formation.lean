import Danmaku.Heading
import Danmaku.Layout
import Danmaku.Sorting

/-! The layout of a shot. A formation starts with all bullets at the origin, facing forward and selected;
steps move, turn and change the selected ones, and a finished formation has its headings normalized and
each place measured within the bounding box. -/

namespace Danmaku

structure Placement (α : Type) where
  position : Vec2 α
  heading : α
  bullet : AssetId
  /-- The place among the bullets of the shot. It fits 32 bits: a shot has at most 4096 bullets. -/
  index : Nat
  deriving DecidableEq

namespace Placement

variable {α : Type}

def coordinate (p : Placement α) : Axis → α
  | .heading => p.heading
  | .x => p.position.x
  | .y => p.position.y

def setCoordinate (p : Placement α) (axis : Axis) (value : α) : Placement α :=
  match axis with
  | .heading => { p with heading := value }
  | .x => { p with position := { p.position with x := value } }
  | .y => { p with position := { p.position with y := value } }

end Placement

/-- The bullets of a shot on the way, with positions of those selected in order. -/
structure Formation (α : Type) where
  bullets : Array (Placement α)
  selection : List Nat
  pivot : Vec2 α
  deriving DecidableEq

namespace Formation

variable {α : Type} [Scalar α]

def start (count : Nat) (bullet : AssetId) : Formation α where
  bullets := Array.ofFn fun i : Fin count => { position := .zero, heading := 0, bullet, index := i }
  selection := List.range count
  pivot := .zero

/-- Changes every selected bullet. -/
def update (f : Formation α) (change : Placement α → Placement α) : Formation α :=
  { f with bullets := f.selection.foldl (fun bullets i => bullets.modify i change) f.bullets }

/-- A coordinate of the bullet at a position. -/
def read (f : Formation α) (axis : Axis) (i : Nat) : α :=
  match f.bullets[i]? with
  | some p => p.coordinate axis
  | none => 0

/-- The selected positions by a coordinate; those with one value stay in order. -/
def ranked (f : Formation α) (axis : Axis) : List Nat :=
  Sorting.sort (fun i j => Scalar.totalLe (f.read axis i) (f.read axis j)) f.selection

/-- The midpoint of the extent of some values. NaN is passed over, and without any other value there is no
midpoint. -/
def center (values : List α) : α :=
  match values.filter (!Scalar.isNaN ·) with
  | [] => 0 / 0
  | value :: values => (values.foldl Scalar.least value + values.foldl Scalar.greatest value) * (1 / 2)

/-- Lays the selection out along an axis with a gap between neighbours, around the midpoint of its
present extent. The order along the axis is kept. -/
def distribute (f : Formation α) (axis : Axis) (gap : α) : Formation α :=
  let ranks := f.ranked axis
  let first := center (ranks.map (f.read axis)) - gap * Scalar.ofNat (ranks.length - 1) * (1 / 2)
  { f with bullets := ranks.zipIdx.foldl (fun bullets (i, k) =>
      bullets.modify i (·.setCoordinate axis (first + gap * Scalar.ofNat k))) f.bullets }

/-- The gap of a spread over a total. A full turn of headings is divided so that the last does not meet
the first; everything else goes from end to end. -/
def gapOf (count : Nat) (axis : Axis) (total : α) : α :=
  if count < 2 then 0
  else if axis = .heading ∧ (360 ≤ total ∨ total ≤ -360) then total / Scalar.ofNat count
  else total / Scalar.ofNat (count - 1)

def spread (f : Formation α) (axis : Axis) (total : α) : Formation α :=
  f.distribute axis (gapOf f.selection.length axis total)

/-- Scales positions from a center and mirrors headings. -/
def scale (f : Formation α) (factor center : Vec2 α) : Formation α :=
  f.update fun p => { p with
    position := center + (p.position - center) * factor
    heading := Heading.mirrored p.heading factor }

def center? (f : Formation Single) : Pivot → Vec2 Single
  | .origin => .zero
  | .running => f.pivot
  | .point p => p

def apply (f : Formation Single) : Placing → Formation Single
  | .select s => { f with selection := s.among f.bullets.size }
  | .selectAll => { f with selection := List.range f.bullets.size }
  | .spread axis total => f.spread axis total
  | .space axis gap => f.distribute axis gap
  | .translate d => f.update fun p => { p with position := p.position + d }
  | .translateLocal d => f.update fun p =>
    let right := Heading.right p.heading
    { p with position := p.position + (right.scaled d.x + right.turnedLeft.scaled d.y) }
  | .setPivot p => { f with pivot := p }
  | .rotate degrees pivot =>
    let r := degrees * Single.radiansPerDegree
    let (center, sine, cosine) := (f.center? pivot, r.sine, r.cosine)
    f.update fun p =>
      { p with position := p.position.turnedAround center sine cosine, heading := p.heading + degrees }
  | .scale factor pivot => f.scale factor (f.center? pivot)
  | .lookAt target => f.update fun p =>
    { p with heading := (Heading.towards? p.position target).getD p.heading }
  | .lookAway target => f.update fun p =>
    { p with heading := ((Heading.towards? p.position target).map (· + 180)).getD p.heading }
  | .reset position heading => f.update fun p =>
    { p with position := if position then .zero else p.position, heading := if heading then 0 else p.heading }
  | .setBullet bullet => f.update fun p => { p with bullet }

end Formation

/-- A bullet of a finished layout. -/
structure Spawn where
  position : Vec2 Single
  /-- In `[0, 360)`. -/
  heading : Single
  bullet : AssetId
  /-- Within the bounding box of the shot, from `0` to `1`. -/
  placeInShot : Vec2 Single
  index : Nat
  deriving DecidableEq

namespace Formation

/-- The bounds of some values, found by comparing each value with the bounds so far. -/
def bounds (values : List Single) : Single × Single :=
  values.foldl (fun (lo, hi) x => (if lo < x then lo else x, if x < hi then hi else x))
    (.infinity, -.infinity)

/-- Where a value lies between two bounds; the middle of an extent that is almost nothing. -/
def place (bounds : Single × Single) (value : Single) : Single :=
  let extent := bounds.2 - bounds.1
  if Single.epsilon < extent then (value - bounds.1) / extent else 0.5

def finish (f : Formation Single) : List Spawn :=
  let bullets := f.bullets.toList
  let xs := bounds (bullets.map (·.position.x))
  let ys := bounds (bullets.map (·.position.y))
  bullets.map fun p => {
    position := p.position
    heading := Heading.normalize p.heading
    bullet := p.bullet
    placeInShot := ⟨place xs p.position.x, place ys p.position.y⟩
    index := p.index }

/-- Lays a number of bullets out. -/
def layOut (count : Nat) (bullet : AssetId) (steps : List Placing) : List Spawn :=
  (steps.foldl apply (start count bullet)).finish

end Formation

end Danmaku
