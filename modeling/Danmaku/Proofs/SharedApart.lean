import Mathlib.Data.Nat.ModEq
import Danmaku.Proofs.Footprint
import Danmaku.Proofs.SeededValues
import Danmaku.Proofs.SharedKeys

/-! Shared values that do not fall together. In the key of a shared value the index of the node is multiplied by an odd
number, and so is the order of the shot. Both go into the hash by exclusive or, so hashes that differ there alone differ
in their low bits, wherever the indices or the orders do. The seeds are draws of the swarm, so a seeded value loses
none of these bits. -/

namespace Danmaku

/-! Words by their low bits. -/

variable {a b : UInt32}

theorem mod_xor_ne (c : UInt32) (apart : a.toNat % 2 ^ 23 ≠ b.toNat % 2 ^ 23) :
    (c ^^^ a).toNat % 2 ^ 23 ≠ (c ^^^ b).toNat % 2 ^ 23 := by
  rw [UInt32.toNat_xor, UInt32.toNat_xor, Nat.xor_mod_two_pow, Nat.xor_mod_two_pow]
  exact fun same => apart (Nat.xor_right_injective same)

/-- An odd factor keeps words apart in their low bits. -/
theorem mod_mul_ne {c : UInt32} (odd : Nat.gcd (2 ^ 23) c.toNat = 1)
    (apart : a.toNat % 2 ^ 23 ≠ b.toNat % 2 ^ 23) : (a * c).toNat % 2 ^ 23 ≠ (b * c).toNat % 2 ^ 23 := by
  have low (w : UInt32) : (w * c).toNat % 2 ^ 23 = (w.toNat * c.toNat) % 2 ^ 23 := by
    rw [UInt32.toNat_mul]
    exact Nat.mod_mod_of_dvd _ ⟨2 ^ 9, rfl⟩
  rw [low, low]
  exact fun same => apart (Nat.ModEq.cancel_right_of_coprime odd same)

namespace Swarm

/-- The seed of every projectile was drawn. -/
def Seeded (s : Swarm) : Prop := ∀ p ∈ s.projectiles, p.seed.IsDraw

theorem Seeded.modify {s : Swarm} {id : ProjectileId} (h : s.Seeded) {f : Projectile → Projectile}
    (seed : ∀ p, (f p).seed = p.seed) : (s.modify id f).Seeded := by
  intro p hp
  rcases mem_modify hp with hp | ⟨q, hq, rfl⟩
  · exact h p hp
  · rw [seed]
    exact h q (mem_of_find? hq)

theorem seed_memoize (p : Projectile) (hash : UInt32) (value : Single) : (p.memoize hash value).2.seed = p.seed := by
  unfold Projectile.memoize
  split <;> rfl

theorem Seeded.reseed {s : Swarm} (h : s.Seeded) (g : Pcg) : Seeded { s with generator := g } := h

theorem Seeded.spawn {s : Swarm} (h : s.Seeded) (parent : Option ProjectileId) (birth : Birth) :
    (s.spawn parent birth).2.Seeded := by
  intro p hp
  rw [spawn_eq] at hp
  rcases Array.mem_push.1 hp with hp | rfl
  · exact h p hp
  · exact s.generator.isDraw_draw

theorem Seeded.advance {s : Swarm} (h : s.Seeded) (dt : Single) : (s.advance dt).Seeded := by
  intro p hp
  obtain ⟨q, hq, rfl⟩ := Array.mem_map.1 hp
  exact h q hq

theorem keptByAll_seeded : KeptByAll Seeded where
  fresh s h := by
    rw [draw_eq]
    exact h.reseed _
  shared s id operation factor x s' drawn h := by
    rcases eq_or_modify_of_sharedDraw? drawn with rfl | ⟨owner, hash, -, -, rfl⟩
    · exact h
    · exact h.modify fun p => seed_memoize p hash _
  custom _ _ _ h := h.modify fun _ => rfl
  start _ p hp := absurd hp (Array.not_mem_empty p)
  spawn _ parent birth h := h.spawn parent birth
  despawn _ _ h p hp := h p (mem_of_mem_despawn hp)
  advance _ dt h := h.advance dt
  flush _ _ h := h.modify fun _ => rfl

end Swarm

/-! Keys. -/

namespace Swarm

variable {custom : ProjectileId → Blackboard → Blackboard → Prop} {s s' : Swarm} {id : ProjectileId}

theorem Retained.originAt (h : s.Retained custom s') (id : ProjectileId) (n : Nat) :
    s'.originAt id n = s.originAt id n := by
  have same := h.map_ancestor? (fun _ _ kept => congrArg (·.origin.combined) kept.birth) id n
  have read := congrArg (Option.elim · 0 fun origin => origin) same
  rwa [Option.elim_map, Option.elim_map] at read

theorem Retained.foldedOrigins (h : s.Retained custom s') (id : ProjectileId) (n : Nat) :
    s'.foldedOrigins id n = s.foldedOrigins id n := by
  rw [Swarm.foldedOrigins, Swarm.foldedOrigins, funext (h.originAt id)]

theorem Retained.shotOrder (h : s.Retained custom s') (id : ProjectileId) (n : Nat) :
    s'.shotOrder id n = s.shotOrder id n := by
  have same := h.map_ancestor? (fun _ _ kept => congrArg (·.shotIndex) kept.birth) id (n - 1)
  have read := congrArg (Option.elim · 0 fun index => index) same
  rwa [Option.elim_map, Option.elim_map] at read

theorem Retained.combine (h : s.Retained custom s') (id : ProjectileId) (operation : UInt32) (factor : RandomFactor) :
    SharedKey.combine s' id operation factor = SharedKey.combine s id operation factor := by
  rw [SharedKey.combine, SharedKey.combine, h.foldedOrigins, h.shotOrder]

end Swarm

/-- Two finite numbers that are not the same. -/
def Single.Apart (x y : Single) : Prop := x.isFinite = true ∧ y.isFinite = true ∧ x.value ≠ y.value

namespace SharedKey

variable {s : Swarm} {id id' : ProjectileId} {factor : RandomFactor}

theorem of?_of_ancestor {owner : Projectile} (found : s.ancestor? id factor.distance.toNat = some owner)
    (operation : UInt32) :
    of? s id operation factor = some ⟨owner.id, combine s id operation factor &&& hashMask⟩ := by
  rw [of?_eq, found]
  rfl

theorem mask_mod (hash : UInt32) : (hash &&& hashMask).toNat % 2 ^ 23 = hash.toNat % 2 ^ 23 := by
  rw [toNat_and_hashMask]
  exact Nat.mod_mod_of_dvd _ ⟨2, rfl⟩

/-- Nodes whose indices differ in their low bits have other hashes. -/
theorem combine_nodes_ne (s : Swarm) (id : ProjectileId) (operation : UInt32) (factor : RandomFactor) {i j : NodeIndex}
    (apart : i.val.toNat % 2 ^ 23 ≠ j.val.toNat % 2 ^ 23) :
    (combine s id (Tree.nodeOperation operation i) factor).toNat % 2 ^ 23 ≠
      (combine s id (Tree.nodeOperation operation j) factor).toNat % 2 ^ 23 := by
  have last (i : NodeIndex) : combine s id (Tree.nodeOperation operation i) factor =
      combine s id operation factor ^^^ i.val * Tree.nodePrime := by
    rw [combine, combine, Tree.nodeOperation]
    ac_rfl
  rw [last, last]
  exact mod_xor_ne _ (mod_mul_ne (by decide) apart)

/-- Shots whose orders differ in their low bits have other hashes. -/
theorem combine_shots_ne (operation : UInt32) (perShot : factor.perShot = true)
    (origins : s.foldedOrigins id factor.distance.toNat = s.foldedOrigins id' factor.distance.toNat)
    (apart : (s.shotOrder id factor.distance.toNat).toNat % 2 ^ 23 ≠
      (s.shotOrder id' factor.distance.toNat).toNat % 2 ^ 23) :
    (combine s id operation factor).toNat % 2 ^ 23 ≠ (combine s id' operation factor).toNat % 2 ^ 23 := by
  rw [combine, combine, origins, if_pos perShot, if_pos perShot, UInt32.mul_comm, UInt32.mul_comm shotOrderPrime]
  exact mod_xor_ne _ (mod_mul_ne (by decide) apart)

end SharedKey

namespace RandomFactor

variable {s s' : Swarm} {id id' : ProjectileId} {factor : RandomFactor} {view view' : Viewpoint}
  {operation operation' : UInt32} {owner : Projectile}

/-- With an owner, a shared factor is the value of its seed and its hash. -/
theorem draw_eq_seededValue (h : s.Reachable) (shared : factor.shared = true) (runs : view.projectile = some id)
    (found : s.ancestor? id factor.distance.toNat = some owner) (operation : UInt32) (notices : Array Notice) :
    (factor.draw view operation ⟨s, notices⟩).1 =
      SharedKey.seededValue owner.seed (SharedKey.combine s id operation factor &&& SharedKey.hashMask) := by
  have hkey := SharedKey.of?_of_ancestor found operation
  obtain ⟨t, drawn⟩ := h.remembers.exists_sharedDraw? hkey (Swarm.find?_of_ancestor? found)
  rw [draw, if_pos shared, runs, Option.bind_some, drawn]

/-- Hashes that differ in their low bits are values apart of one owner, also where the second is drawn later. -/
theorem apart_of_combine (h : s.Reachable) (h' : s'.Reachable) (later : s.Retained (fun _ _ _ => True) s')
    (shared : factor.shared = true) (runs : view.projectile = some id) (runs' : view'.projectile = some id')
    (found : s.ancestor? id factor.distance.toNat = some owner)
    (found' : s.ancestor? id' factor.distance.toNat = some owner)
    (apart : (SharedKey.combine s id operation factor).toNat % 2 ^ 23 ≠
      (SharedKey.combine s id' operation' factor).toNat % 2 ^ 23) (notices notices' : Array Notice) :
    (factor.draw view operation ⟨s, notices⟩).1.Apart (factor.draw view' operation' ⟨s', notices'⟩).1 := by
  have same := later.map_ancestor? (fun _ _ kept => kept.seed) id' factor.distance.toNat
  rw [found'] at same
  obtain ⟨owner', found'', seed⟩ := Option.map_eq_some_iff.1 same
  have drawn : owner.seed.IsDraw :=
    h.keeps Swarm.keptByAll_seeded owner (Swarm.mem_of_find? (Swarm.find?_of_ancestor? found))
  rw [draw_eq_seededValue h shared runs found, draw_eq_seededValue h' shared runs' found'', seed,
    later.combine]
  refine ⟨(SharedKey.isDraw_seededValue drawn _).isFinite, (SharedKey.isDraw_seededValue drawn _).isFinite, ?_⟩
  refine SharedKey.seededValue_ne drawn ?_
  rwa [SharedKey.mask_mod, SharedKey.mask_mod]

/-- Shared factors are apart, in every swarm that comes about and in any later one that retains it. Two nodes of a tree
whose indices differ modulo `2 ^ 23` draw other numbers for a projectile whose owner lives. Where a factor is drawn per
shot, two projectiles of one owner with the same origins below it draw other numbers at a node if the shot orders that
go into their keys differ modulo `2 ^ 23`. -/
theorem shared_draws_apart (s s' : Swarm) (h : s.Reachable) (h' : s'.Reachable)
    (later : s.Retained (fun _ _ _ => True) s') (factor : RandomFactor) (shared : factor.shared = true) :
    (∀ (view view' : Viewpoint) (id : ProjectileId) (operation : UInt32) (i j : NodeIndex)
      (notices notices' : Array Notice), view.projectile = some id → view'.projectile = some id →
      (s.ancestor? id factor.distance.toNat).isSome = true → i.val.toNat % 2 ^ 23 ≠ j.val.toNat % 2 ^ 23 →
      (factor.draw view (Tree.nodeOperation operation i) ⟨s, notices⟩).1.Apart
        (factor.draw view' (Tree.nodeOperation operation j) ⟨s', notices'⟩).1) ∧
    (factor.perShot = true → ∀ (view view' : Viewpoint) (id id' : ProjectileId) (owner : Projectile)
      (operation : UInt32) (i : NodeIndex) (notices notices' : Array Notice),
      view.projectile = some id → view'.projectile = some id' →
      s.ancestor? id factor.distance.toNat = some owner → s.ancestor? id' factor.distance.toNat = some owner →
      s.foldedOrigins id factor.distance.toNat = s.foldedOrigins id' factor.distance.toNat →
      (s.shotOrder id factor.distance.toNat).toNat % 2 ^ 23 ≠
        (s.shotOrder id' factor.distance.toNat).toNat % 2 ^ 23 →
      (factor.draw view (Tree.nodeOperation operation i) ⟨s, notices⟩).1.Apart
        (factor.draw view' (Tree.nodeOperation operation i) ⟨s', notices'⟩).1) := by
  constructor
  · intro view view' id operation i j notices notices' runs runs' alive apart
    obtain ⟨owner, found⟩ := Option.isSome_iff_exists.1 alive
    have hashes := SharedKey.combine_nodes_ne s id operation factor apart
    exact apart_of_combine h h' later shared runs runs' found found hashes notices notices'
  · intro perShot view view' id id' owner operation i notices notices' runs runs' found found' origins apart
    have hashes := SharedKey.combine_shots_ne (Tree.nodeOperation operation i) perShot origins apart
    exact apart_of_combine h h' later shared runs runs' found found' hashes notices notices'

/-- A projectile with two children, of its first shot and of its second. -/
def twins : Swarm :=
  ((((Swarm.ofSeed 11).spawnRoot {}).2.spawn (some ⟨1⟩) {}).2.spawn (some ⟨1⟩) { shotIndex := 1 }).2

/-- The first child draws numbers apart at two nodes, and the two children do so at one. -/
theorem twins_draw_apart :
    let factor : RandomFactor := { shared := true, distance := 1, perShot := true }
    twins.Reachable ∧
    (factor.draw { projectile := some ⟨2⟩ } (Tree.nodeOperation 5 ⟨1⟩) ⟨twins, #[]⟩).1.Apart
      (factor.draw { projectile := some ⟨2⟩ } (Tree.nodeOperation 5 ⟨2⟩) ⟨twins, #[]⟩).1 ∧
    (factor.draw { projectile := some ⟨2⟩ } (Tree.nodeOperation 5 ⟨1⟩) ⟨twins, #[]⟩).1.Apart
      (factor.draw { projectile := some ⟨3⟩ } (Tree.nodeOperation 5 ⟨1⟩) ⟨twins, #[]⟩).1 := by
  intro factor
  have reachable : twins.Reachable :=
    (((Swarm.Reachable.ofSeed 11).spawnRoot {}).spawn (some ⟨1⟩) {}).spawn (some ⟨1⟩) { shotIndex := 1 }
  have same : twins.Retained (fun _ _ _ => True) twins := .refl (fun _ _ => trivial) twins
  have alive : (twins.ancestor? ⟨2⟩ 1).isSome = true := by decide +kernel
  obtain ⟨owner, found⟩ := Option.isSome_iff_exists.1 alive
  have found' : twins.ancestor? ⟨3⟩ 1 = some owner := by
    rw [← found]
    decide +kernel
  obtain ⟨nodes, shots⟩ := shared_draws_apart twins twins reachable reachable same factor rfl
  refine ⟨reachable, nodes _ _ ⟨2⟩ 5 ⟨1⟩ ⟨2⟩ #[] #[] rfl rfl alive (by decide), ?_⟩
  exact shots rfl _ _ ⟨2⟩ ⟨3⟩ owner 5 ⟨1⟩ #[] #[] rfl rfl found found' (by decide +kernel) (by decide +kernel)

end RandomFactor

end Danmaku
