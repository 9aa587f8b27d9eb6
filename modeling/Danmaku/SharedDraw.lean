import Danmaku.Swarm

/-! Random values that projectiles share. A key is made on the way up the line of emitters: it names the
ancestor that owns the value and a hash of the operation and of the origins below that ancestor. The
value follows from the owner's seed and the hash alone; the owner's memo keeps it. -/

namespace Danmaku

/-- How a random factor is drawn: afresh, or shared under an ancestor. -/
structure RandomFactor where
  shared : Bool := false
  /-- How many steps up the owner of the value is. -/
  distance : UInt32 := 0
  perShot : Bool := false
  deriving DecidableEq

structure SharedKey where
  owner : ProjectileId
  hash : UInt32
  deriving DecidableEq

namespace SharedKey

def hashMask : UInt32 := 0xffffff

def hashBits : Nat := 23

/-- Spreads the order of shots over the hashes. -/
def shotOrderPrime : UInt32 := 805306457

/-- The weight `2 ^ -(bit + 1)` in double precision. -/
def bitWeight (bit : Nat) : Float := 1 / Float.ofNat (Nat.pow 2 (bit + 1))

/-- The fraction of `x`, not negative. -/
def fraction (x : Float) : Float :=
  match x.toModel.unpack with
  | .finite s m e _ =>
    let part : Nat := if 0 ≤ e then 0 else m % Nat.pow 2 (-e).toNat
    let r : Float := .ofModel (Float.Model.pack (.round Float.Model.Format.binary64 s part e))
    if r < 0 then r + 1 else r
  | .zero _ => x
  | _ => 0 / 0

/-- The seed with bit `n` of the hash mirrored to weight `2 ^ -(n + 1)` and added, modulo `1`. -/
def seededValue (seed : Single) (hash : UInt32) : Single :=
  let add (sum : Float) (bit : Nat) : Float := if hash.toNat.testBit bit then sum + bitWeight bit else sum
  let value := Single.ofDouble (fraction ((List.range hashBits).foldl add seed.toDouble))
  if 1 ≤ value then 0 else value

/-- Climbs from `p`: the owner, the hash with the origins below the owner, and the shot order of the
last projectile below the owner. -/
def climb (s : Swarm) (p : Projectile) (hash order : UInt32) : Nat → Option (Projectile × UInt32 × UInt32)
  | 0 => some (p, hash, order)
  | n + 1 => do
    climb s (← s.find? (← p.parent)) (hash ^^^ p.birth.origin.combined) p.birth.shotIndex n

/-- The key of a query that starts at a projectile; none where an ancestor is missing. -/
def of? (s : Swarm) (id : ProjectileId) (operation : UInt32) (factor : RandomFactor) : Option SharedKey := do
  let p ← s.find? id
  let (owner, hash, order) ← climb s p operation p.birth.shotIndex factor.distance.toNat
  let hash := if factor.perShot then hash ^^^ order * shotOrderPrime else hash
  return ⟨owner.id, hash &&& hashMask⟩

end SharedKey

namespace Swarm

/-- The shared value of a query, computed when it is first asked for. -/
def sharedDraw? (s : Swarm) (id : ProjectileId) (operation : UInt32) (factor : RandomFactor) :
    Option (Single × Swarm) := do
  let key ← SharedKey.of? s id operation factor
  let owner ← s.find? key.owner
  match owner.memoized? key.hash with
  | some value => return (value, s)
  | none =>
    let value := SharedKey.seededValue owner.seed key.hash
    return (value, s.modify key.owner fun p => (p.memoize key.hash value).2)

end Swarm

end Danmaku
