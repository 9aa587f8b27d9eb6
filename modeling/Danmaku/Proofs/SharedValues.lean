import Danmaku.Proofs.Drawing
import Danmaku.Proofs.Places

/-! Shared values are a function of their key. A memo holds nothing but values that follow from the seed of its
projectile and a hash, whoever asked for them and in whatever order; so a value that is read back is the one
that would be computed, and dropping a memo changes no answer. -/

namespace Danmaku

namespace SharedKey

variable {s : Swarm} {id : ProjectileId} {operation : UInt32} {factor : RandomFactor} {key : SharedKey}

/-- The owner that a climb comes to is the one that its id finds. -/
theorem find?_of_climb {p q : Projectile} {hash order hash' order' : UInt32} {n : Nat}
    (hp : s.find? p.id = some p) (h : climb s p hash order n = some (q, hash', order')) :
    s.find? q.id = some q := by
  induction n generalizing p hash order with
  | zero =>
      obtain ⟨rfl, -⟩ := Prod.mk.inj (Option.some.inj h)
      exact hp
  | succ n ih =>
      obtain ⟨parent, -, h⟩ := Option.bind_eq_some_iff.1 h
      obtain ⟨emitter, hfound, h⟩ := Option.bind_eq_some_iff.1 h
      refine ih ?_ h
      rw [Swarm.id_of_find? hfound, hfound]

/-- A key names an owner that lives, and a hash of 24 bits. -/
theorem of?_eq_some (h : of? s id operation factor = some key) :
    (∃ owner, s.find? key.owner = some owner) ∧ key.hash.toNat < 0x1000000 := by
  obtain ⟨p, hp, h⟩ := Option.bind_eq_some_iff.1 h
  obtain ⟨⟨owner, hash, order⟩, hclimb, h⟩ := Option.bind_eq_some_iff.1 h
  obtain rfl := Option.some.inj h
  constructor
  · refine ⟨owner, find?_of_climb ?_ hclimb⟩
    rw [Swarm.id_of_find? hp, hp]
  · dsimp only
    rw [UInt32.toNat_and]
    exact Nat.lt_of_le_of_lt Nat.and_le_right (by decide)

end SharedKey

/-- What the memo holds of a hash is the value that follows from the seed and the hash. -/
def Projectile.Remembers (p : Projectile) : Prop :=
  ∀ e ∈ p.memo, e.1.toNat < 0x1000000 ∧ e.2 = SharedKey.seededValue p.seed e.1

theorem Projectile.Remembers.of_memoized? {p : Projectile} (h : p.Remembers) {hash : UInt32} {value : Single}
    (found : p.memoized? hash = some value) : value = SharedKey.seededValue p.seed hash := by
  obtain ⟨before, after, hmemo, -⟩ := List.lookup_eq_some_iff.1 found
  refine (h (hash, value) ?_).2
  rw [hmemo]
  exact List.mem_append_right _ List.mem_cons_self

theorem Projectile.Remembers.memoize {p : Projectile} (h : p.Remembers) {hash : UInt32}
    (bits : hash.toNat < 0x1000000) : (p.memoize hash (SharedKey.seededValue p.seed hash)).2.Remembers := by
  unfold Projectile.memoize
  split
  · exact h
  · intro e he
    rcases List.mem_cons.1 he with rfl | he
    · exact ⟨bits, rfl⟩
    · exact h e he

/-- Every memo of a swarm remembers what it should. -/
def Swarm.Remembers (s : Swarm) : Prop := ∀ p ∈ s.projectiles, p.Remembers

namespace Swarm

variable {s s' : Swarm} {id : ProjectileId} {operation : UInt32} {factor : RandomFactor}

theorem sharedDraw?_of_none (h : SharedKey.of? s id operation factor = none) :
    s.sharedDraw? id operation factor = none := by
  rw [sharedDraw?, h]
  rfl

theorem sharedDraw?_of_key {key : SharedKey} {owner : Projectile}
    (hkey : SharedKey.of? s id operation factor = some key) (howner : s.find? key.owner = some owner) :
    s.sharedDraw? id operation factor =
      match owner.memoized? key.hash with
      | some value => some (value, s)
      | none => some (SharedKey.seededValue owner.seed key.hash, s.modify key.owner fun p =>
          (p.memoize key.hash (SharedKey.seededValue owner.seed key.hash)).2) := by
  rw [sharedDraw?, hkey]
  simp only [Option.bind_eq_bind, Option.bind_some, howner]
  rfl

/-- A shared draw changes nothing but the memo of an owner, which keeps the value. -/
theorem eq_or_modify_of_sharedDraw? {x : Single} (hs : s.sharedDraw? id operation factor = some (x, s')) :
    s' = s ∨ ∃ owner hash, s.find? owner.id = some owner ∧ hash.toNat < 0x1000000 ∧
      s' = s.modify owner.id fun p => (p.memoize hash (SharedKey.seededValue owner.seed hash)).2 := by
  cases hkey : SharedKey.of? s id operation factor with
  | none =>
      rw [sharedDraw?_of_none hkey] at hs
      cases hs
  | some key =>
      obtain ⟨⟨owner, howner⟩, bits⟩ := SharedKey.of?_eq_some hkey
      rw [sharedDraw?_of_key hkey howner] at hs
      split at hs
      · obtain ⟨-, rfl⟩ := Prod.mk.inj (Option.some.inj hs)
        exact Or.inl rfl
      · obtain ⟨-, rfl⟩ := Prod.mk.inj (Option.some.inj hs)
        have hid := id_of_find? howner
        exact Or.inr ⟨owner, key.hash, by rwa [hid], bits, by rw [hid]⟩

/-- A shared draw gives the value of its key. -/
theorem Remembers.exists_sharedDraw? (h : s.Remembers) {key : SharedKey} {owner : Projectile}
    (hkey : SharedKey.of? s id operation factor = some key) (howner : s.find? key.owner = some owner) :
    ∃ s', s.sharedDraw? id operation factor = some (SharedKey.seededValue owner.seed key.hash, s') := by
  rw [sharedDraw?_of_key hkey howner]
  cases found : owner.memoized? key.hash with
  | none => exact ⟨_, rfl⟩
  | some value =>
      refine ⟨s, ?_⟩
      rw [(h owner (mem_of_find? howner)).of_memoized? found]

theorem Remembers.modify (h : s.Remembers) {f : Projectile → Projectile}
    (hf : ∀ p, s.find? id = some p → p.Remembers → (f p).Remembers) : (s.modify id f).Remembers := by
  intro p hp
  rcases mem_modify hp with hp | ⟨q, hq, rfl⟩
  · exact h p hp
  · exact hf q hq (h q (mem_of_find? hq))

theorem Remembers.shared (h : s.Remembers) {x : Single}
    (hs : s.sharedDraw? id operation factor = some (x, s')) : s'.Remembers := by
  rcases eq_or_modify_of_sharedDraw? hs with rfl | ⟨owner, hash, howner, bits, rfl⟩
  · exact h
  · refine h.modify fun p hp hr => ?_
    obtain rfl := Option.some.inj (howner.symm.trans hp)
    exact hr.memoize bits

theorem Remembers.reseed (h : s.Remembers) (g : Pcg) : Remembers { s with generator := g } := h

theorem Remembers.draw (h : s.Remembers) : s.draw.2.Remembers := by
  rw [draw_eq]
  exact h.reseed _

theorem keptByUpdates_remembers : KeptByUpdates Remembers where
  fresh := fun _ h => h.draw
  shared := fun _ _ _ _ _ _ hs h => h.shared hs
  custom := fun _ _ _ h => h.modify fun _ _ hp => hp

theorem Remembers.spawn (h : s.Remembers) (parent : Option ProjectileId) (birth : Birth) :
    (s.spawn parent birth).2.Remembers := by
  rw [spawn_eq]
  intro p hp
  rcases Array.mem_push.1 hp with hp | rfl
  · exact h p hp
  · exact fun e he => absurd he List.not_mem_nil

theorem Remembers.advance (h : s.Remembers) (dt : Single) : (s.advance dt).Remembers := by
  intro p hp
  obtain ⟨q, hq, rfl⟩ := Array.mem_map.1 hp
  exact h q hq

/-- The swarms that come about from another by births and deaths, ageing, draws, resolutions of parameters and
shots, updates of patterns, dropped memos and new custom values, with the number of births. -/
inductive Reaches (start : Swarm) : Nat → Swarm → Prop where
  | refl : Reaches start 0 start
  | spawn {n : Nat} {s : Swarm} (h : Reaches start n s) (parent : Option ProjectileId) (birth : Birth) :
      Reaches start (n + 1) (s.spawn parent birth).2
  | spawnRoot {n : Nat} {s : Swarm} (h : Reaches start n s) (origin : Origin) :
      Reaches start (n + 1) (s.spawnRoot origin).2
  | spawnVolley {n : Nat} {s : Swarm} (h : Reaches start n s) (volley : Volley) (muzzle : Muzzle) :
      Reaches start (n + volley.spawns.length) (s.spawnVolley volley muzzle).2
  | despawn {n : Nat} {s : Swarm} (h : Reaches start n s) (id : ProjectileId) : Reaches start n (s.despawn id).2
  | advance {n : Nat} {s : Swarm} (h : Reaches start n s) (dt : Single) : Reaches start n (s.advance dt)
  | flushMemo {n : Nat} {s : Swarm} (h : Reaches start n s) (id : ProjectileId) :
      Reaches start n (s.modify id Projectile.flushMemo)
  | setCustom {n : Nat} {s : Swarm} (h : Reaches start n s) (id : ProjectileId) (change : Projectile → Blackboard) :
      Reaches start n (s.modify id fun p => { p with custom := change p })
  | draw {n : Nat} {s : Swarm} (h : Reaches start n s) : Reaches start n s.draw.2
  | sharedDraw {n : Nat} {s : Swarm} (h : Reaches start n s) (id : ProjectileId) (operation : UInt32)
      (factor : RandomFactor) {x : Single} {s' : Swarm} (drawn : s.sharedDraw? id operation factor = some (x, s')) :
      Reaches start n s'
  | resolve {n : Nat} {s : Swarm} (h : Reaches start n s) {α : Type} [Blendable α] (t : Tree α) (i : NodeIndex)
      (view : Viewpoint) (owner : Owner) (operation : UInt32) :
      Reaches start n (t.resolveFrom i view owner operation { swarm := s }).2.swarm
  | shot {n : Nat} {s : Swarm} (h : Reaches start n s) (shot : Shot) (view : Viewpoint) :
      Reaches start n (shot.draw view { swarm := s }).2.swarm
  | update {n : Nat} {s : Swarm} (h : Reaches start n s) (p : Player) (dt : Single) (globals : Blackboard) :
      Reaches start n (p.update dt globals s).swarm

/-- The swarms that come about from a seed. -/
def Reachable (s : Swarm) : Prop := ∃ seed n, (ofSeed seed).Reaches n s

namespace Reachable

theorem ofSeed (seed : UInt64) : (ofSeed seed).Reachable := ⟨seed, 0, .refl⟩

theorem spawn (h : s.Reachable) (parent : Option ProjectileId) (birth : Birth) : (s.spawn parent birth).2.Reachable :=
  h.imp fun _ ⟨_, h⟩ => ⟨_, h.spawn parent birth⟩

theorem spawnRoot (h : s.Reachable) (origin : Origin) : (s.spawnRoot origin).2.Reachable := h.spawn none _

theorem draw (h : s.Reachable) : s.draw.2.Reachable := h.imp fun _ ⟨_, h⟩ => ⟨_, h.draw⟩

theorem sharedDraw (h : s.Reachable) {x : Single} (drawn : s.sharedDraw? id operation factor = some (x, s')) :
    s'.Reachable := h.imp fun _ ⟨_, h⟩ => ⟨_, h.sharedDraw id operation factor drawn⟩

end Reachable

/-- A property of swarms that outlasts all that happens to them. -/
structure KeptByAll (P : Swarm → Prop) : Prop extends KeptByUpdates P where
  start : ∀ seed, P (.ofSeed seed)
  spawn : ∀ s parent birth, P s → P (s.spawn parent birth).2
  despawn : ∀ s id, P s → P (s.despawn id).2
  advance : ∀ s dt, P s → P (s.advance dt)
  flush : ∀ s id, P s → P (s.modify id Projectile.flushMemo)

theorem KeptByAll.spawnAll {P : Swarm → Prop} (kept : KeptByAll P) (h : P s) (parent : Option ProjectileId)
    (births : List Birth) : P (s.spawnAll parent births).2 := by
  induction births generalizing s with
  | nil => exact h
  | cons birth births ih => exact ih (kept.spawn s parent birth h)

theorem Reachable.keeps {P : Swarm → Prop} (kept : KeptByAll P) (h : s.Reachable) : P s := by
  obtain ⟨seed, n, h⟩ := h
  induction h with
  | refl => exact kept.start seed
  | spawn _ parent birth ih => exact kept.spawn _ parent birth ih
  | spawnRoot _ origin ih => exact kept.spawn _ none _ ih
  | spawnVolley _ volley muzzle ih => exact kept.spawnAll ih muzzle.emitter _
  | despawn _ id ih => exact kept.despawn _ id ih
  | advance _ dt ih => exact kept.advance _ dt ih
  | flushMemo _ id ih => exact kept.flush _ id ih
  | setCustom _ id change ih => exact kept.custom _ id change ih
  | draw _ ih => exact kept.fresh _ ih
  | sharedDraw _ id operation factor drawn ih => exact kept.shared _ _ _ _ _ _ drawn ih
  | resolve _ t i view owner operation ih =>
      exact keeps_resolveFrom kept.toKeptByDraws t i view owner operation { swarm := _ } ih
  | shot _ shot view ih => exact keeps_shot kept.toKeptByDraws shot view { swarm := _ } ih
  | update _ p dt globals ih => exact p.keeps_update kept.toKeptByUpdates dt globals ih

theorem keptByAll_remembers : KeptByAll Remembers where
  toKeptByUpdates := keptByUpdates_remembers
  start := fun _ p hp => absurd hp (Array.not_mem_empty p)
  spawn := fun _ parent birth h => h.spawn parent birth
  despawn := fun _ _ h p hp => h p (mem_of_mem_despawn hp)
  advance := fun _ dt h => h.advance dt
  flush := fun _ _ h => h.modify fun _ _ _ _ he => absurd he List.not_mem_nil

theorem Reachable.remembers (h : s.Reachable) : s.Remembers := h.keeps keptByAll_remembers

/-- Whatever came before, a memo holds values that follow from the seed of its projectile and a hash of 24
bits. So a shared draw has a value exactly if its key can be made, and the value is that of the key: the seed
of its owner, who lives, and its hash decide it. -/
theorem shared_values_of_reachable (s : Swarm) (h : s.Reachable) :
    (∀ p ∈ s.projectiles, ∀ e ∈ p.memo,
      e.1.toNat < 0x1000000 ∧ e.2 = SharedKey.seededValue p.seed e.1) ∧
    ∀ (id : ProjectileId) (operation : UInt32) (factor : RandomFactor),
      (∀ key, SharedKey.of? s id operation factor = some key → ∃ owner s', s.find? key.owner = some owner ∧
        s.sharedDraw? id operation factor = some (SharedKey.seededValue owner.seed key.hash, s')) ∧
      (s.sharedDraw? id operation factor = none ↔ SharedKey.of? s id operation factor = none) := by
  have remembers := h.remembers
  refine ⟨remembers, fun id operation factor => ?_⟩
  have drawn (key : SharedKey) (hkey : SharedKey.of? s id operation factor = some key) :
      ∃ owner s', s.find? key.owner = some owner ∧
        s.sharedDraw? id operation factor = some (SharedKey.seededValue owner.seed key.hash, s') := by
    obtain ⟨⟨owner, howner⟩, -⟩ := SharedKey.of?_eq_some hkey
    obtain ⟨s', hs'⟩ := remembers.exists_sharedDraw? hkey howner
    exact ⟨owner, s', howner, hs'⟩
  refine ⟨drawn, fun hnone => ?_, sharedDraw?_of_none⟩
  cases hkey : SharedKey.of? s id operation factor with
  | none => rfl
  | some key =>
      obtain ⟨owner, s', -, hs'⟩ := drawn key hkey
      rw [hnone] at hs'
      cases hs'

/-- A projectile with two children. -/
def family : Swarm := ((((ofSeed 11).spawnRoot {}).2.spawn (some ⟨1⟩) {}).2.spawn (some ⟨1⟩) {}).2

/-- The first child has drawn a value of its parent. -/
def familyAfterDraw : Swarm := (family.sharedDraw? ⟨2⟩ 5 { shared := true, distance := 1 }).elim family (·.2)

theorem reachable_family : family.Reachable :=
  (((Reachable.ofSeed 11).spawnRoot {}).spawn (some ⟨1⟩) {}).spawn (some ⟨1⟩) {}

theorem reachable_familyAfterDraw : familyAfterDraw.Reachable := by
  unfold familyAfterDraw
  cases drawn : family.sharedDraw? ⟨2⟩ 5 { shared := true, distance := 1 } with
  | none => exact reachable_family
  | some r => exact reachable_family.sharedDraw drawn

/-- The other child gets the value that its parent remembers, though it asks with another operation: the two
fall together in 24 bits. -/
theorem shared_value_of_family :
    familyAfterDraw.Reachable ∧ ((familyAfterDraw.find? ⟨1⟩).bind (·.memoized? 5)).isSome = true ∧
    SharedKey.of? familyAfterDraw ⟨3⟩ 0x1000005 { shared := true, distance := 1 } = some ⟨⟨1⟩, 5⟩ ∧
    ∃ owner s', familyAfterDraw.find? ⟨1⟩ = some owner ∧
      familyAfterDraw.sharedDraw? ⟨3⟩ 0x1000005 { shared := true, distance := 1 } =
        some (SharedKey.seededValue owner.seed 5, s') := by
  have hkey : SharedKey.of? familyAfterDraw ⟨3⟩ 0x1000005 { shared := true, distance := 1 } = some ⟨⟨1⟩, 5⟩ := by
    decide +kernel
  have h := shared_values_of_reachable familyAfterDraw reachable_familyAfterDraw
  exact ⟨reachable_familyAfterDraw, by decide +kernel, hkey, (h.2 ⟨3⟩ 0x1000005 _).1 _ hkey⟩

end Swarm

end Danmaku
