import Danmaku.Proofs.Places
import Danmaku.Shot
import Mathlib.Algebra.GroupWithZero.Nat
import Mathlib.Data.List.Nodup
import Mathlib.Logic.Function.Basic

/-! A swarm is a map from ids to projectiles. A census keeps such a map beside its own generator and counts the
births; no deed of a host tells the two apart, as long as the ids do not run out. -/

namespace Danmaku

/-- What a host does with a swarm. A shared draw is an edit of its owner. -/
inductive Deed where
  | spawn (parent : Option ProjectileId) (birth : Birth)
  | spawnRoot (origin : Origin)
  | spawnVolley (volley : Volley) (muzzle : Muzzle)
  | despawn (id : ProjectileId)
  | advance (dt : Single)
  | draw
  | edit (id : ProjectileId) (change : Projectile → Projectile) (keeps : ∀ p, (change p).id = p.id)

def Deed.births : Deed → Nat
  | spawn .. | spawnRoot _ => 1
  | spawnVolley volley _ => volley.spawns.length
  | despawn _ | advance _ | draw | edit .. => 0

/-- A swarm, with the ids that births gave back and those that were removed. -/
structure Tally where
  swarm : Swarm
  given : List ProjectileId := []
  gone : List ProjectileId := []

namespace Tally

def ofSeed (seed : UInt64) : Tally := { swarm := .ofSeed seed }

def perform (t : Tally) : Deed → Tally
  | .spawn parent birth =>
    let (id, swarm) := t.swarm.spawn parent birth
    { t with swarm, given := t.given ++ [id] }
  | .spawnRoot origin =>
    let (id, swarm) := t.swarm.spawnRoot origin
    { t with swarm, given := t.given ++ [id] }
  | .spawnVolley volley muzzle =>
    let (ids, swarm) := t.swarm.spawnVolley volley muzzle
    { t with swarm, given := t.given ++ ids }
  | .despawn id =>
    let (lived, swarm) := t.swarm.despawn id
    { t with swarm, gone := if lived then t.gone ++ [id] else t.gone }
  | .advance dt => { t with swarm := t.swarm.advance dt }
  | .draw => { t with swarm := t.swarm.draw.2 }
  | .edit id change _ => { t with swarm := t.swarm.modify id change }

def after (t : Tally) (deeds : List Deed) : Tally := deeds.foldl perform t

end Tally

/-- The living projectiles as a map from their ids, which births give out from `1` on. -/
structure Census where
  generator : Pcg
  births : Nat := 0
  entry : ProjectileId → Option Projectile := fun _ => none

namespace Census

def ofSeed (seed : UInt64) : Census := { generator := .ofSeed seed }

def spawn (c : Census) (parent : Option ProjectileId) (birth : Birth) : Census :=
  let (seed, generator) := c.generator.draw
  let id : ProjectileId := ⟨.ofNat (c.births + 1)⟩
  { generator, births := c.births + 1, entry := Function.update c.entry id (some { id, parent, birth, seed }) }

def despawn (c : Census) (id : ProjectileId) : Census := { c with entry := Function.update c.entry id none }

def edit (c : Census) (id : ProjectileId) (change : Projectile → Projectile) : Census :=
  { c with entry := Function.update c.entry id ((c.entry id).map change) }

def advance (c : Census) (dt : Single) : Census :=
  { c with entry := fun id => (c.entry id).map fun p => { p with age := p.age + dt } }

def perform (c : Census) : Deed → Census
  | .spawn parent birth => c.spawn parent birth
  | .spawnRoot origin => c.spawn none { origin, placeInShot := ⟨0.5, 0.5⟩ }
  | .spawnVolley volley muzzle =>
    (volley.spawns.map (muzzle.birth volley.shot)).foldl (·.spawn muzzle.emitter ·) c
  | .despawn id => c.despawn id
  | .advance dt => c.advance dt
  | .draw => { c with generator := c.generator.draw.2 }
  | .edit id change _ => c.edit id change

def after (c : Census) (deeds : List Deed) : Census := deeds.foldl perform c

end Census

/-- A census counts a swarm: its map has the projectiles of the swarm, each by its id. -/
structure Census.Counts (c : Census) (t : Tally) : Prop where
  generator : c.generator = t.swarm.generator
  next : t.swarm.nextId.val.toNat = c.births + 1
  given : t.given.map (·.val.toNat) = List.range' 1 c.births
  ordered : t.swarm.Ordered
  entry_eq_some_iff : ∀ {id p}, c.entry id = some p ↔ p ∈ t.swarm.projectiles ∧ p.id = id
  isSome_iff : ∀ id, (c.entry id).isSome ↔ id ∈ t.given ∧ id ∉ t.gone
  given_of_gone : ∀ id ∈ t.gone, id ∈ t.given

theorem Census.entry_despawn (c : Census) (id other : ProjectileId) :
    (c.despawn id).entry other = if other = id then none else c.entry other :=
  Function.update_apply ..

theorem Census.entry_edit (c : Census) (id : ProjectileId) (change : Projectile → Projectile)
    (other : ProjectileId) :
    (c.edit id change).entry other = if other = id then (c.entry id).map change else c.entry other :=
  Function.update_apply ..

theorem Census.births_spawnAll (c : Census) (parent : Option ProjectileId) (births : List Birth) :
    (births.foldl (·.spawn parent ·) c).births = c.births + births.length := by
  induction births generalizing c with
  | nil => rfl
  | cons birth births ih =>
      rw [List.foldl_cons, ih, List.length_cons, Census.spawn]
      dsimp only
      omega

theorem Census.births_perform (c : Census) (deed : Deed) : (c.perform deed).births = c.births + deed.births := by
  cases deed with
  | spawnVolley volley muzzle =>
      rw [Census.perform, Census.births_spawnAll, List.length_map]
      rfl
  | _ => rfl

namespace Census.Counts

variable {c : Census} {t : Tally}

theorem find?_eq (h : c.Counts t) (id : ProjectileId) : t.swarm.find? id = c.entry id := by
  ext p
  rw [h.ordered.find?_eq_some_iff, h.entry_eq_some_iff]

theorem ofSeed (seed : UInt64) : (Census.ofSeed seed).Counts (.ofSeed seed) where
  generator := rfl
  next := rfl
  given := rfl
  ordered := List.Pairwise.nil
  entry_eq_some_iff := by
    intro id p
    simp [Census.ofSeed, Tally.ofSeed, Swarm.ofSeed]
  isSome_iff := by
    intro id
    simp [Census.ofSeed, Tally.ofSeed]
  given_of_gone := by
    intro id hid
    cases hid

/-- The ids that were given are the numbers from `1` to the count of births. -/
theorem mem_given_iff (h : c.Counts t) {id : ProjectileId} :
    id ∈ t.given ↔ 1 ≤ id.val.toNat ∧ id.val.toNat ≤ c.births := by
  have : id ∈ t.given ↔ id.val.toNat ∈ t.given.map (·.val.toNat) := by
    constructor
    · exact fun hid => List.mem_map_of_mem hid
    · intro hid
      obtain ⟨other, hother, heq⟩ := List.mem_map.1 hid
      rwa [← ProjectileId.toNat_inj.1 heq]
  rw [this, h.given, List.mem_range'_1]
  omega

theorem nodup_given (h : c.Counts t) : t.given.Nodup := by
  refine List.Nodup.of_map (·.val.toNat) ?_
  rw [h.given]
  exact List.nodup_range'

theorem bounds_of_mem (h : c.Counts t) {p : Projectile} (hp : p ∈ t.swarm.projectiles) :
    1 ≤ p.id.val.toNat ∧ p.id.val.toNat ≤ c.births := by
  have found := h.entry_eq_some_iff.2 ⟨hp, rfl⟩
  exact h.mem_given_iff.1 ((h.isSome_iff p.id).1 (Option.isSome_of_mem found)).1

theorem below (h : c.Counts t) : t.swarm.Below := by
  intro p hp
  rw [h.next]
  exact Nat.lt_succ_of_le (h.bounds_of_mem hp).2

theorem nextId_eq (h : c.Counts t) : t.swarm.nextId = ⟨.ofNat (c.births + 1)⟩ := by
  apply ProjectileId.toNat_inj.1
  have hlt := t.swarm.nextId.val.toNat_lt
  rw [h.next] at hlt
  rw [h.next, UInt32.toNat_ofNat_of_lt' hlt]

theorem entry_nextId (h : c.Counts t) : c.entry t.swarm.nextId = none := by
  cases found : c.entry t.swarm.nextId with
  | none => rfl
  | some p =>
      obtain ⟨hp, hid⟩ := h.entry_eq_some_iff.1 found
      have := (h.bounds_of_mem hp).2
      rw [hid, h.next] at this
      omega

theorem entry_spawn (h : c.Counts t) (parent : Option ProjectileId) (birth : Birth) :
    (c.spawn parent birth).entry = Function.update c.entry t.swarm.nextId
      (some { id := t.swarm.nextId, parent, birth, seed := t.swarm.generator.draw.1 }) := by
  rw [Census.spawn, h.generator, h.nextId_eq]

theorem spawn (h : c.Counts t) (few : c.births + 1 < 2 ^ 32 - 1) (parent : Option ProjectileId) (birth : Birth) :
    (c.spawn parent birth).Counts
      { t with swarm := (t.swarm.spawn parent birth).2, given := t.given ++ [(t.swarm.spawn parent birth).1] } where
  generator := by
    rw [Census.spawn, h.generator]
    rfl
  next := by
    have room : t.swarm.nextId.val.toNat + 1 < UInt32.size := by
      rw [h.next]
      change _ < 2 ^ 32
      omega
    rw [Swarm.nextId_spawn room, h.next, Census.spawn]
  given := by
    rw [List.map_append, h.given, Census.spawn, List.range'_concat, Nat.one_mul, Nat.add_comm 1]
    exact congrArg (_ ++ [·]) h.next
  ordered := h.ordered.spawn h.below parent birth
  entry_eq_some_iff := by
    intro id p
    rw [h.entry_spawn, Swarm.spawn_eq, Array.mem_push]
    by_cases hid : id = t.swarm.nextId
    · subst hid
      rw [Function.update_self, Option.some.injEq]
      constructor
      · rintro rfl
        exact ⟨Or.inr rfl, rfl⟩
      · rintro ⟨hp | rfl, hid⟩
        · -- The new id is not one of the others.
          have found := h.entry_eq_some_iff.2 ⟨hp, hid⟩
          rw [h.entry_nextId] at found
          cases found
        · rfl
    · rw [Function.update_of_ne hid, h.entry_eq_some_iff]
      constructor
      · rintro ⟨hp, rfl⟩
        exact ⟨Or.inl hp, rfl⟩
      · rintro ⟨hp | rfl, rfl⟩
        · exact ⟨hp, rfl⟩
        · exact absurd rfl hid
  isSome_iff := by
    intro id
    have fresh : t.swarm.nextId ∉ t.gone := fun hgone => by
      have := (h.mem_given_iff.1 (h.given_of_gone _ hgone)).2
      rw [h.next] at this
      omega
    rw [h.entry_spawn, List.mem_append, List.mem_singleton]
    by_cases hid : id = t.swarm.nextId
    · subst hid
      rw [Function.update_self]
      exact ⟨fun _ => ⟨Or.inr rfl, fresh⟩, fun _ => rfl⟩
    · rw [Function.update_of_ne hid, h.isSome_iff]
      exact and_congr_left fun _ => ⟨Or.inl, fun hgiven => hgiven.resolve_right hid⟩
  given_of_gone := by
    intro id hid
    exact List.mem_append_left _ (h.given_of_gone id hid)

theorem spawnAll (h : c.Counts t) {births : List Birth} (few : c.births + births.length < 2 ^ 32 - 1)
    (parent : Option ProjectileId) :
    (births.foldl (·.spawn parent ·) c).Counts { t with
      swarm := (t.swarm.spawnAll parent births).2
      given := t.given ++ (t.swarm.spawnAll parent births).1 } := by
  induction births generalizing c t with
  | nil =>
      rw [Swarm.spawnAll, List.append_nil]
      exact h
  | cons birth births ih =>
      rw [List.length_cons] at few
      have first := h.spawn (by omega) parent birth
      have rest := ih first (by rw [Census.spawn]; dsimp only; omega)
      rw [List.append_assoc] at rest
      exact rest

theorem despawn (h : c.Counts t) (id : ProjectileId) : (c.despawn id).Counts (t.perform (.despawn id)) := by
  have lived : (t.swarm.find? id).isSome ↔ id ∈ t.given ∧ id ∉ t.gone := by rw [h.find?_eq, h.isSome_iff]
  have performed : t.perform (.despawn id) = { t with
      swarm := { t.swarm with projectiles := t.swarm.projectiles.filter (·.id ≠ id) }
      gone := if (t.swarm.find? id).isSome then t.gone ++ [id] else t.gone } := by
    rw [Tally.perform, h.ordered.despawn_eq]
  rw [performed]
  have mem_gone {other : ProjectileId} : (other ∈ if (t.swarm.find? id).isSome then t.gone ++ [id] else t.gone) ↔
      other ∈ t.gone ∨ (other = id ∧ id ∈ t.given ∧ id ∉ t.gone) := by
    rw [← lived]
    split <;> simp [*]
  exact {
    generator := h.generator
    next := h.next
    given := h.given
    ordered := by
      rw [Swarm.Ordered, Search.Ascending, Array.toList_filter]
      exact h.ordered.filter _
    entry_eq_some_iff := by
      intro other p
      rw [c.entry_despawn, Array.mem_filter, decide_eq_true_eq]
      by_cases hne : other = id
      · subst hne
        simp
      · rw [if_neg hne, h.entry_eq_some_iff]
        constructor
        · rintro ⟨hp, rfl⟩
          exact ⟨⟨hp, hne⟩, rfl⟩
        · rintro ⟨⟨hp, -⟩, hid⟩
          exact ⟨hp, hid⟩
    isSome_iff := by
      intro other
      rw [c.entry_despawn, mem_gone]
      by_cases hne : other = id
      · subst hne
        grind
      · rw [if_neg hne, h.isSome_iff]
        simp [hne]
    given_of_gone := by
      intro other hother
      rcases mem_gone.1 hother with hgone | ⟨rfl, hgiven, -⟩
      · exact h.given_of_gone other hgone
      · exact hgiven }

/-- A change that keeps the ids is one of the map. -/
theorem map (h : c.Counts t) {g : Projectile → Projectile} (keeps : ∀ p, (g p).id = p.id) :
    { c with entry := fun id => (c.entry id).map g }.Counts
      { t with swarm := { t.swarm with projectiles := t.swarm.projectiles.map g } } where
  generator := h.generator
  next := h.next
  given := h.given
  ordered := by
    rw [Swarm.Ordered, Search.Ascending, Array.toList_map, List.pairwise_map]
    simp only [keeps]
    exact h.ordered
  entry_eq_some_iff := by
    intro id p
    rw [Option.map_eq_some_iff, Array.mem_map]
    constructor
    · rintro ⟨q, hq, rfl⟩
      obtain ⟨hmem, hid⟩ := h.entry_eq_some_iff.1 hq
      exact ⟨⟨q, hmem, rfl⟩, (keeps q).trans hid⟩
    · rintro ⟨⟨q, hmem, rfl⟩, hid⟩
      exact ⟨q, h.entry_eq_some_iff.2 ⟨hmem, (keeps q).symm.trans hid⟩, rfl⟩
  isSome_iff := by
    intro id
    rw [Option.isSome_map]
    exact h.isSome_iff id
  given_of_gone := h.given_of_gone

theorem edit (h : c.Counts t) (id : ProjectileId) {change : Projectile → Projectile}
    (keeps : ∀ p, (change p).id = p.id) :
    (c.edit id change).Counts { t with swarm := t.swarm.modify id change } := by
  have edited : c.edit id change =
      { c with entry := fun other => (c.entry other).map fun p => if p.id = id then change p else p } := by
    refine congrArg (fun entry => { c with entry }) (funext fun other => ?_)
    rw [Function.update_apply]
    split
    · rename_i hid
      subst hid
      refine Option.map_congr fun p hp => ?_
      rw [if_pos (h.entry_eq_some_iff.1 hp).2]
    · rename_i hid
      cases found : c.entry other with
      | none => rfl
      | some p => rw [Option.map_some, if_neg ((h.entry_eq_some_iff.1 found).2.trans_ne hid)]
  rw [edited, h.ordered.modify_eq]
  refine h.map fun p => ?_
  split
  · exact keeps p
  · rfl

theorem reseed (h : c.Counts t) (g : Pcg) :
    { c with generator := g }.Counts { t with swarm := { t.swarm with generator := g } } :=
  { h with generator := rfl }

theorem perform (h : c.Counts t) (deed : Deed) (few : c.births + deed.births < 2 ^ 32 - 1) :
    (c.perform deed).Counts (t.perform deed) := by
  cases deed with
  | spawn parent birth =>
      rw [Deed.births] at few
      exact h.spawn few parent birth
  | spawnRoot origin =>
      rw [Deed.births] at few
      exact h.spawn few none _
  | spawnVolley volley muzzle =>
      rw [Deed.births] at few
      refine h.spawnAll ?_ muzzle.emitter
      rwa [List.length_map]
  | despawn id => exact h.despawn id
  | advance dt => exact h.map fun _ => rfl
  | draw =>
      rw [Census.perform, Tally.perform, h.generator, Swarm.draw_eq]
      exact h.reseed _
  | edit id change keeps => exact h.edit id keeps

theorem after (h : c.Counts t) {deeds : List Deed} (few : c.births + (deeds.map Deed.births).sum < 2 ^ 32 - 1) :
    (c.after deeds).Counts (t.after deeds) := by
  induction deeds generalizing c t with
  | nil => exact h
  | cons deed deeds ih =>
      rw [List.map_cons, List.sum_cons] at few
      refine ih (h.perform deed (by omega)) ?_
      rw [births_perform]
      omega

end Census.Counts

namespace Tally

/-- Whatever a host does with a fresh swarm, as long as there are fewer than `2 ^ 32 - 1` births: the ids ascend
and are below the next one, none is given twice, and those that were given and are not gone are the ids of the
living. What is found by an id is what a map from ids has there; a removal and an edit are those of the map. -/
theorem after_refines_census (seed : UInt64) (deeds : List Deed)
    (few : (deeds.map Deed.births).sum < 2 ^ 32 - 1) :
    let t := (Tally.ofSeed seed).after deeds
    let c := (Census.ofSeed seed).after deeds
    (t.swarm.projectiles.toList.Pairwise fun p q => p.id.val < q.id.val) ∧
    (∀ p ∈ t.swarm.projectiles, 1 ≤ p.id.val ∧ p.id.val < t.swarm.nextId.val) ∧
    t.given.Nodup ∧
    (∀ id, t.swarm.contains id = true ↔ id ∈ t.given ∧ id ∉ t.gone) ∧
    (∀ id, t.swarm.find? id = c.entry id) ∧
    (∀ p, p ∈ t.swarm.projectiles ↔ c.entry p.id = some p) ∧
    (∀ id, (t.swarm.despawn id).1 = t.swarm.contains id ∧
      ∀ other, (t.swarm.despawn id).2.find? other = if other = id then none else t.swarm.find? other) ∧
    ∀ id (change : Projectile → Projectile), (∀ p, (change p).id = p.id) → ∀ other,
      (t.swarm.modify id change).find? other =
        if other = id then (t.swarm.find? id).map change else t.swarm.find? other := by
  intro t c
  have h : c.Counts t := by
    refine (Census.Counts.ofSeed seed).after ?_
    rw [Census.ofSeed, Nat.zero_add]
    exact few
  refine ⟨?_, fun p hp => ?_, h.nodup_given, fun id => ?_, h.find?_eq, fun p => ?_, fun id => ⟨?_, fun other => ?_⟩,
    fun id change keeps other => ?_⟩
  · exact h.ordered
  · obtain ⟨first, last⟩ := h.bounds_of_mem hp
    rw [UInt32.le_iff_toNat_le, UInt32.lt_iff_toNat_lt, h.next, UInt32.toNat_one]
    omega
  · rw [Swarm.contains, h.find?_eq, h.isSome_iff]
  · rw [h.entry_eq_some_iff, and_iff_left rfl]
  · rw [h.ordered.despawn_eq]
    rfl
  · have removed := (h.despawn id).find?_eq other
    rw [Census.entry_despawn, ← h.find?_eq other] at removed
    exact removed
  · have edited := (h.edit id keeps).find?_eq other
    rw [Census.entry_edit, ← h.find?_eq other, ← h.find?_eq id] at edited
    exact edited

/-- A family whose first child is gone before the last one is born. -/
def brood : List Deed :=
  [.spawnRoot {}, .spawn (some ⟨1⟩) {}, .spawn (some ⟨1⟩) {}, .despawn ⟨2⟩, .advance 1, .spawn (some ⟨3⟩) {}]

theorem after_brood :
    (brood.map Deed.births).sum < 2 ^ 32 - 1 ∧
    ((ofSeed 7).after brood).given = [⟨1⟩, ⟨2⟩, ⟨3⟩, ⟨4⟩] ∧ ((ofSeed 7).after brood).gone = [⟨2⟩] ∧
    ∀ id, ((ofSeed 7).after brood).swarm.contains id = true ↔
      id ∈ ((ofSeed 7).after brood).given ∧ id ∉ ((ofSeed 7).after brood).gone := by
  have few : (brood.map Deed.births).sum < 2 ^ 32 - 1 := by decide
  obtain ⟨-, -, -, contains_iff, -⟩ := after_refines_census 7 brood few
  exact ⟨few, by decide +kernel, by decide +kernel, contains_iff⟩

end Tally

end Danmaku
