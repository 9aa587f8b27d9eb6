import Danmaku.Fold
import Danmaku.SharedDraw

/-! Selectors: where a node of a parameter tree takes the number in `[0, 1]` from that picks between its
children. A source gives a raw number and a curve remaps it. -/

namespace Danmaku

/-- What kind of authored thing a parameter belongs to. -/
inductive Owner where
  | bullet | shot | pattern
  deriving DecidableEq

/-- A number that a projectile, or the pattern that runs on it, carries. -/
inductive Facet where
  | placeX | placeY | spawnHeading | age | custom (name : String)
  | shotIndex | shotTime
  | slot | patternShots | patternTime
  deriving DecidableEq

/-- A facet of an ancestor, folded into `[0, 1]` by its period. -/
structure LineageQuery where
  distance : UInt32 := 0
  facet : Facet
  period : Single := 1
  fold : Fold := .clamp
  deriving DecidableEq

namespace LineageQuery

/-- A heading has a period of one turn, all else of `1`. -/
def ofFacet (facet : Facet) : LineageQuery :=
  { facet, period := if facet = .spawnHeading then 360 else 1 }

/-- A period that is not positive counts as `1`. -/
def cycle (q : LineageQuery) (value : Single) : Single :=
  q.fold.apply (value / if 0 < q.period then q.period else 1)

end LineageQuery

inductive Selector.Source where
  | random (factor : RandomFactor) | lineage (query : LineageQuery) | global (name : String)
  /-- Reserved: always `0`. -/
  | combined
  deriving DecidableEq

structure Selector where
  source : Selector.Source
  curve : Curve Single := .linear
  deriving DecidableEq

namespace Selector

def random : Selector := { source := .random {} }

def sharedRandom (distance : UInt32) (perShot : Bool) : Selector :=
  { source := .random { shared := true, distance, perShot } }

def lineage (query : LineageQuery) : Selector := { source := .lineage query }

def global (name : String) : Selector := { source := .global name }

instance : Inhabited Selector := ⟨random⟩

end Selector

end Danmaku
