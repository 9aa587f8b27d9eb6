import Danmaku.Layout.Formation
import Danmaku.Tree.Resolve

/-! Shots. An authored shot holds parameters; drawing it gives a volley of placed bullets, which the host
turns into projectiles. -/

namespace Danmaku

structure Shot where
  id : UInt32
  count : Param Int32
  bullet : Param AssetId
  modifiers : List (Step Param) := []

/-- A shot that is ready to spawn. -/
structure Volley where
  shot : UInt32
  spawns : List Spawn
  deriving DecidableEq

/-- Where a volley comes from. -/
structure Muzzle where
  emitter : Option ProjectileId
  pattern : UInt32
  slot : UInt32
  /-- The shots that the pattern fired before this one. -/
  shotIndex : UInt32
  shotTime : Single
  deriving DecidableEq

namespace Shot

def maxBullets : Nat := 4096

def ofCount (id : UInt32) (count : Int32) (bullet : AssetId) : Shot :=
  { id, count := .fixed count, bullet := .fixed bullet }

/-- The number of bullets, within `0..maxBullets`. -/
def drawCount (shot : Shot) (view : Viewpoint) : Draw Nat := do
  let requested ← shot.count.draw view .shot
  if maxBullets < requested.toInt then
    modify (·.note (.tooManyBullets shot.id requested))
  return min maxBullets requested.toInt.toNat

/-- Draws the number of bullets, the bullet and the modifiers, in this order, and lays the shot out. -/
def draw (shot : Shot) (view : Viewpoint) : Draw Volley := do
  let count ← shot.drawCount view
  let bullet ← shot.bullet.draw view .shot
  let steps ← shot.modifiers.mapM fun step =>
    (step.traverse (g := fun α => α) (·.draw view .shot) (·.draw view .shot) (·.draw view .shot) :
      Draw Placing)
  return { shot := shot.id, spawns := Formation.layOut count bullet steps }

end Shot

namespace Muzzle

def birth (muzzle : Muzzle) (shot : UInt32) (spawn : Spawn) : Birth where
  origin := ⟨muzzle.pattern, shot, spawn.bullet.val⟩
  placeInShot := spawn.placeInShot
  heading := spawn.heading
  shotIndex := muzzle.shotIndex
  shotTime := muzzle.shotTime
  slot := muzzle.slot
  patternShots := muzzle.shotIndex + 1
  patternTime := muzzle.shotTime

end Muzzle

namespace Swarm

/-- One projectile for each birth, in order. -/
def spawnAll (s : Swarm) (parent : Option ProjectileId) : List Birth → List ProjectileId × Swarm
  | [] => ([], s)
  | birth :: births =>
    let (id, s) := s.spawn parent birth
    let (ids, s) := s.spawnAll parent births
    (id :: ids, s)

def spawnVolley (s : Swarm) (volley : Volley) (muzzle : Muzzle) : List ProjectileId × Swarm :=
  s.spawnAll muzzle.emitter (volley.spawns.map (muzzle.birth volley.shot))

end Swarm

end Danmaku
