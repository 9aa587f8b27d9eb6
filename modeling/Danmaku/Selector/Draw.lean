import Danmaku.Heading
import Danmaku.Stage

/-! Drawing a selector: the raw number of its source, remapped by its curve and clamped to `[0, 1]`. -/

namespace Danmaku

/-- A shared value where it is asked for and there is a line of emitters to walk, a fresh one otherwise. -/
def RandomFactor.draw (factor : RandomFactor) (view : Viewpoint) (operation : UInt32) (s : Stage) :
    Single × Stage :=
  if factor.shared then
    match view.projectile.bind fun id => s.swarm.sharedDraw? id operation factor with
    | some (value, swarm) => (value, { s with swarm })
    | none => (s.note (.unsharedDraw operation)).draw
  else s.draw

namespace LineageQuery

/-- What the clock of the running pattern says of a facet. -/
def ofClock? (q : LineageQuery) (clock : PatternClock) : Option Single :=
  match q.facet with
  | .shotIndex | .patternShots => some (q.cycle (.ofNat clock.shots.toNat))
  | .shotTime | .patternTime => some (q.cycle clock.time)
  | .slot => some (q.cycle (.ofNat clock.slot.toNat))
  | _ => none

/-- What a projectile says of a facet. A place in a shot is within `[0, 1]` by itself. -/
def ofProjectile (q : LineageQuery) (p : Projectile) : Single :=
  match q.facet with
  | .placeX => p.birth.placeInShot.x.clamp 0 1
  | .placeY => p.birth.placeInShot.y.clamp 0 1
  | .spawnHeading => q.cycle (Heading.normalize p.birth.heading)
  | .age => q.cycle p.age
  | .custom name => q.cycle ((p.custom.get? Single name).getD 0)
  | .shotIndex => q.cycle (.ofNat p.birth.shotIndex.toNat)
  | .shotTime => q.cycle p.birth.shotTime
  | .slot => q.cycle (.ofNat p.birth.slot.toNat)
  | .patternShots => q.cycle (.ofNat p.birth.patternShots.toNat)
  | .patternTime => q.cycle p.birth.patternTime

/-- The clock of the running pattern, for its own parameters and those of its shots; else the ancestor. -/
def value? (q : LineageQuery) (owner : Owner) (view : Viewpoint) (s : Swarm) : Option Single :=
  let clock := if q.distance = 0 ∧ owner ≠ .bullet then view.clock.bind q.ofClock? else none
  clock.orElse fun _ => (view.projectile.bind fun id => s.ancestor? id q.distance.toNat).map q.ofProjectile

end LineageQuery

namespace Selector

/-- The raw number of a source; a global or an ancestor that is missing gives `0`. -/
def Source.draw (source : Source) (view : Viewpoint) (owner : Owner) (operation : UInt32) (s : Stage) :
    Single × Stage :=
  match source with
  | .random factor => factor.draw view operation s
  | .lineage q =>
    match q.value? owner view s.swarm with
    | some x => (x, s)
    | none => (0, s.note (.missingAncestor q.facet q.distance))
  | .global name =>
    match view.globals.get? Single name with
    | some x => (x, s)
    | none => (0, s.note (.missingGlobal name))
  | .combined => (0, s)

def remap (curve : Curve Single) (raw : Single) : Single :=
  let x := curve.evaluate raw
  if x.isNaN then 0 else x.clamp 0 1

def draw (selector : Selector) (view : Viewpoint) (owner : Owner) (operation : UInt32) (s : Stage) :
    Single × Stage :=
  let (raw, s) := selector.source.draw view owner operation s
  (remap selector.curve raw, s)

end Selector

end Danmaku
