import Danmaku.Blackboard
import Danmaku.Pcg
import Danmaku.Search

/-! The swarm: every live projectile, in the order of their ids, and the generator of all random draws.
A projectile may emit others, and knows the one that emitted it by an id that can outlive it. Ids are
given out in order and never again. -/

namespace Danmaku

structure ProjectileId where
  val : UInt32
  deriving DecidableEq

/-- The authored assets that a projectile comes from. -/
structure Origin where
  pattern : UInt32 := 0
  shot : UInt32 := 0
  bullet : UInt32 := 0
  deriving DecidableEq

def Origin.combined (o : Origin) : UInt32 := o.pattern ^^^ o.shot ^^^ o.bullet

/-- What a projectile keeps of the shot that spawned it. -/
structure Birth where
  origin : Origin := {}
  /-- Within the bounding box of the shot, from `0` to `1`. -/
  placeInShot : Vec2 Single := .zero
  heading : Single := 0
  shotIndex : UInt32 := 0
  shotTime : Single := 0
  slot : UInt32 := 0
  /-- The shots of the emitting pattern, this one included. -/
  patternShots : UInt32 := 0
  patternTime : Single := 0
  deriving DecidableEq

structure Projectile where
  id : ProjectileId
  parent : Option ProjectileId
  birth : Birth
  /-- In `[0, 1)`. -/
  seed : Single
  age : Single := 0
  custom : Blackboard := {}
  /-- Shared random values by their hash. -/
  memo : List (UInt32 × Single) := []
  deriving DecidableEq

namespace Projectile

def memoized? (p : Projectile) (hash : UInt32) : Option Single := p.memo.lookup hash

/-- Stores a value unless the hash has one, and gives the stored one. -/
def memoize (p : Projectile) (hash : UInt32) (value : Single) : Single × Projectile :=
  match p.memoized? hash with
  | some old => (old, p)
  | none => (value, { p with memo := (hash, value) :: p.memo })

def flushMemo (p : Projectile) : Projectile := { p with memo := [] }

end Projectile

structure Swarm where
  seed : UInt64
  generator : Pcg
  projectiles : Array Projectile := #[]
  nextId : ProjectileId := ⟨1⟩
  deriving DecidableEq

namespace Swarm

def ofSeed (seed : UInt64) : Swarm := { seed, generator := .ofSeed seed }

def draw (s : Swarm) : Single × Swarm :=
  let (x, generator) := s.generator.draw
  (x, { s with generator })

def size (s : Swarm) : Nat := s.projectiles.size

def ids (s : Swarm) : List ProjectileId := s.projectiles.toList.map (·.id)

/-- The place of a projectile, by its id: the projectiles are in the order of their ids. -/
def position? (s : Swarm) (id : ProjectileId) : Option Nat :=
  Search.position? (fun p : Projectile => p.id.val.toNat) s.projectiles id.val.toNat

def find? (s : Swarm) (id : ProjectileId) : Option Projectile := (s.position? id).bind (s.projectiles[·]?)

def contains (s : Swarm) (id : ProjectileId) : Bool := (s.find? id).isSome

/-- Changes the projectile of an id, if it lives. -/
def modify (s : Swarm) (id : ProjectileId) (f : Projectile → Projectile) : Swarm :=
  match s.position? id with
  | some i => { s with projectiles := s.projectiles.modify i f }
  | none => s

/-- A parent that is not alive is still recorded. -/
def spawn (s : Swarm) (parent : Option ProjectileId) (birth : Birth) : ProjectileId × Swarm :=
  let id := s.nextId
  let (seed, s) := s.draw
  (id, { s with projectiles := s.projectiles.push { id, parent, birth, seed }, nextId := ⟨id.val + 1⟩ })

/-- A projectile that nothing emitted, in the middle of its shot. -/
def spawnRoot (s : Swarm) (origin : Origin) : ProjectileId × Swarm :=
  s.spawn none { origin, placeInShot := ⟨0.5, 0.5⟩ }

/-- Whether the projectile lived, and the swarm without it. -/
def despawn (s : Swarm) (id : ProjectileId) : Bool × Swarm :=
  match s.position? id with
  | some i => (true, { s with projectiles := s.projectiles.eraseIdxIfInBounds i })
  | none => (false, s)

def advance (s : Swarm) (dt : Single) : Swarm :=
  { s with projectiles := s.projectiles.map fun p => { p with age := p.age + dt } }

/-- The projectile so many steps up the line of emitters. -/
def ancestor? (s : Swarm) (id : ProjectileId) : Nat → Option Projectile
  | 0 => s.find? id
  | n + 1 => do s.ancestor? (← (← s.find? id).parent) n

end Swarm

end Danmaku
