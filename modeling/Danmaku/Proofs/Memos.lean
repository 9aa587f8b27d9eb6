import Danmaku.Proofs.SharedValues
import Mathlib.Data.Set.Insert

/-! Memos are all that shared draws change, and they decide nothing. A swarm that has forgotten its memos finds the
same projectiles and makes the same keys; a shared draw notes the value of its key where it has none, so what
draws note is a set of keys, in whatever order they were drawn. -/

namespace Danmaku

namespace Projectile

theorem flushMemo_memoize (p : Projectile) (hash : UInt32) (value : Single) :
    (p.memoize hash value).2.flushMemo = p.flushMemo := by
  unfold memoize
  split <;> rfl

theorem memoized?_memoize (p : Projectile) (hash hash' : UInt32) (value : Single) :
    (p.memoize hash value).2.memoized? hash' =
      if hash' = hash then some ((p.memoized? hash).getD value) else p.memoized? hash' := by
  unfold memoize
  split
  · rename_i old found
    split
    · rename_i same
      rw [same, found, Option.getD_some]
    · rfl
  · rename_i missing
    rw [missing, Option.getD_none, memoized?, List.lookup_cons]
    split <;> simp_all [memoized?]

end Projectile

namespace Swarm

variable {s s' s'' : Swarm} {id : ProjectileId} {operation : UInt32} {factor : RandomFactor}

/-- The swarm with all memos dropped. -/
def forget (s : Swarm) : Swarm := { s with projectiles := s.projectiles.map Projectile.flushMemo }

theorem generator_eq_of_forget (h : s'.forget = s.forget) : s'.generator = s.generator := by
  change s'.forget.generator = s.forget.generator
  rw [h]

@[simp] theorem position?_forget (s : Swarm) (id : ProjectileId) : s.forget.position? id = s.position? id :=
  Search.position?_map Projectile.flushMemo s.projectiles

@[simp] theorem find?_forget (s : Swarm) (id : ProjectileId) :
    s.forget.find? id = (s.find? id).map Projectile.flushMemo := by
  rw [find?, find?, position?_forget, Option.map_bind]
  congr 1
  funext i
  exact Array.getElem?_map

@[simp] theorem ancestor?_forget (s : Swarm) (id : ProjectileId) (n : Nat) :
    s.forget.ancestor? id n = (s.ancestor? id n).map Projectile.flushMemo := by
  induction n generalizing id with
  | zero => exact s.find?_forget id
  | succ n ih =>
      simp only [ancestor?, find?_forget]
      cases s.find? id with
      | none => rfl
      | some p =>
          cases hp : p.parent with
          | none => simp [Projectile.flushMemo, hp]
          | some parent => simpa [Projectile.flushMemo, hp] using ih parent

end Swarm

namespace SharedKey

theorem climb_forget (s : Swarm) (p : Projectile) (hash order : UInt32) (n : Nat) :
    climb s.forget p.flushMemo hash order n = (climb s p hash order n).map fun r => (r.1.flushMemo, r.2) := by
  induction n generalizing p hash order with
  | zero => rfl
  | succ n ih =>
      simp only [climb, Swarm.find?_forget]
      cases hp : p.parent with
      | none => simp [Projectile.flushMemo, hp]
      | some parent =>
          cases hq : s.find? parent with
          | none => simp [Projectile.flushMemo, hp, hq]
          | some q => simpa [Projectile.flushMemo, hp, hq] using ih q _ _

@[simp] theorem of?_forget (s : Swarm) (id : ProjectileId) (operation : UInt32) (factor : RandomFactor) :
    of? s.forget id operation factor = of? s id operation factor := by
  unfold of?
  rw [Swarm.find?_forget]
  cases s.find? id with
  | none => rfl
  | some p =>
      simp only [Option.map_some, Option.bind_eq_bind, Option.bind_some, climb_forget, Option.bind_map]
      rfl

end SharedKey

theorem LineageQuery.ofProjectile_flushMemo (q : LineageQuery) (p : Projectile) :
    q.ofProjectile p.flushMemo = q.ofProjectile p := by
  unfold ofProjectile
  cases q.facet <;> rfl

@[simp] theorem LineageQuery.value?_forget (q : LineageQuery) (owner : Owner) (view : Viewpoint) (s : Swarm) :
    q.value? owner view s.forget = q.value? owner view s := by
  have flushed : q.ofProjectile ∘ Projectile.flushMemo = q.ofProjectile := funext q.ofProjectile_flushMemo
  unfold value?
  cases view.projectile with
  | none => rfl
  | some id => simp only [Option.bind_some, Swarm.ancestor?_forget, Option.map_map, flushed]

@[simp] theorem Tree.referred?_forget {α : Type} [Blendable α] (r : Reference) (view : Viewpoint) (s : Swarm) :
    (Tree.referred? r view s.forget : Option α) = Tree.referred? r view s := by
  unfold Tree.referred?
  cases r.holder with
  | global => rfl
  | lineage =>
      simp only [Swarm.ancestor?_forget, Option.bind_eq_bind, Option.bind_map]
      rfl

namespace Swarm

variable {s s' s'' : Swarm} {id : ProjectileId} {operation : UInt32} {factor : RandomFactor}
  {keys keys' : Set (Nat × UInt32)}

/-- What the projectile at a place remembers of a hash. -/
def memo? (s : Swarm) (i : Nat) (hash : UInt32) : Option Single := s.projectiles[i]?.bind (·.memoized? hash)

/-- What the projectile at a place would remember of a hash. -/
def seeded? (s : Swarm) (i : Nat) (hash : UInt32) : Option Single :=
  s.projectiles[i]?.map fun p => SharedKey.seededValue p.seed hash

@[simp] theorem seeded?_forget (s : Swarm) (i : Nat) (hash : UInt32) :
    s.forget.seeded? i hash = s.seeded? i hash := by
  rw [seeded?, forget, Array.getElem?_map, Option.map_map]
  rfl

/-- Swarms that are the same, with memos compared as maps. -/
structure Alike (s s' : Swarm) : Prop where
  forget : s.forget = s'.forget
  memo? : ∀ i hash, s.memo? i hash = s'.memo? i hash

/-- From the one swarm to the other, the values of these keys, and no others, are noted: each at a place and for
a hash. -/
structure Notes (keys : Set (Nat × UInt32)) (s s' : Swarm) : Prop where
  forget : s'.forget = s.forget
  noted : ∀ i hash, (i, hash) ∈ keys → s'.memo? i hash = s.seeded? i hash
  kept : ∀ i hash, (i, hash) ∉ keys → s'.memo? i hash = s.memo? i hash

theorem Notes.refl (s : Swarm) : Notes ∅ s s where
  forget := rfl
  noted := fun _ _ h => absurd h (Set.notMem_empty _)
  kept := fun _ _ _ => rfl

theorem Notes.trans (h : Notes keys s s') (h' : Notes keys' s' s'') : Notes (keys ∪ keys') s s'' where
  forget := h'.forget.trans h.forget
  noted := by
    have same (i : Nat) (hash : UInt32) : s'.seeded? i hash = s.seeded? i hash := by
      rw [← seeded?_forget, h.forget, seeded?_forget]
    intro i hash hkey
    by_cases hkey' : (i, hash) ∈ keys'
    · rw [h'.noted i hash hkey', same]
    · rw [h'.kept i hash hkey', h.noted i hash (hkey.resolve_right hkey')]
  kept := by
    intro i hash hkey
    rw [Set.mem_union, not_or] at hkey
    rw [h'.kept i hash hkey.2, h.kept i hash hkey.1]

/-- What is noted decides the swarm, but for the order in the memos. -/
theorem Notes.alike (h : Notes keys s s') (h' : Notes keys s s'') : s'.Alike s'' where
  forget := h.forget.trans h'.forget.symm
  memo? := by
    intro i hash
    by_cases hkey : (i, hash) ∈ keys
    · rw [h.noted i hash hkey, h'.noted i hash hkey]
    · rw [h.kept i hash hkey, h'.kept i hash hkey]

theorem notes_memoize {p : Projectile} {i : Nat} {hash : UInt32} {value : Single} (hi : s.position? id = some i)
    (hp : s.projectiles[i]? = some p) (hvalue : (p.memoized? hash).getD value = SharedKey.seededValue p.seed hash) :
    Notes {(i, hash)} s (s.modify id fun p => (p.memoize hash value).2) := by
  rw [modify_of_position? hi]
  refine ⟨?_, fun j hash' hkey => ?_, fun j hash' hkey => ?_⟩
  · have flushed : (s.projectiles.modify i fun p => (p.memoize hash value).2).map Projectile.flushMemo =
        s.projectiles.map Projectile.flushMemo := by
      apply Array.ext
      · simp
      · intro j _ _
        rw [Array.getElem_map, Array.getElem_map, Array.getElem_modify]
        split
        · exact Projectile.flushMemo_memoize ..
        · rfl
    rw [forget, forget, flushed]
  · obtain ⟨rfl, rfl⟩ := Prod.mk.inj (Set.mem_singleton_iff.1 hkey)
    rw [memo?, seeded?, Array.getElem?_modify, if_pos rfl, hp]
    simp only [Option.map_some, Option.bind_some, Projectile.memoized?_memoize, if_pos, hvalue]
  · rw [memo?, memo?, Array.getElem?_modify]
    split
    · rename_i hij
      subst hij
      have other : hash' ≠ hash := fun h => hkey (congrArg (Prod.mk i) h)
      rw [hp]
      simp only [Option.map_some, Option.bind_some, Projectile.memoized?_memoize, if_neg other]
    · rfl

/-- A shared draw gives the value of its key and notes it, whatever is remembered. -/
theorem exists_notes_of_key {key : SharedKey} (hkey : SharedKey.of? s id operation factor = some key) :
    ∃ x keys, ∀ s', s'.forget = s.forget → s'.Remembers →
      ∃ s'', s'.sharedDraw? id operation factor = some (x, s'') ∧ Notes keys s' s'' := by
  obtain ⟨⟨owner, howner⟩, -⟩ := SharedKey.of?_eq_some hkey
  obtain ⟨i, hi, -⟩ := find?_eq_some_iff.1 howner
  refine ⟨SharedKey.seededValue owner.seed key.hash, {(i, key.hash)}, fun s' forget remembers => ?_⟩
  have hkey' : SharedKey.of? s' id operation factor = some key := by
    rw [← SharedKey.of?_forget, forget, SharedKey.of?_forget, hkey]
  have hi' : s'.position? key.owner = some i := by rw [← position?_forget, forget, position?_forget, hi]
  have flushed : (s'.find? key.owner).map Projectile.flushMemo = some owner.flushMemo := by
    rw [← find?_forget, forget, find?_forget, howner]
    rfl
  obtain ⟨owner', howner', hflush⟩ := Option.map_eq_some_iff.1 flushed
  have hseed : owner'.seed = owner.seed := by
    change owner'.flushMemo.seed = owner.flushMemo.seed
    rw [hflush]
  have hp : s'.projectiles[i]? = some owner' := by rw [← find?_of_position? hi', howner']
  have hmemo := remembers owner' (mem_of_find? howner')
  rw [sharedDraw?_of_key hkey' howner', hseed]
  cases found : owner'.memoized? key.hash with
  | none =>
      refine ⟨_, rfl, notes_memoize hi' hp ?_⟩
      rw [found, Option.getD_none, hseed]
  | some value =>
      have hvalue := hmemo.of_memoized? found
      refine ⟨s', ?_, ⟨rfl, fun j hash h => ?_, fun _ _ _ => rfl⟩⟩
      · rw [hvalue, hseed]
      · obtain ⟨rfl, rfl⟩ := Prod.mk.inj (Set.mem_singleton_iff.1 h)
        rw [memo?, seeded?, hp, Option.bind_some, found, hvalue]
        rfl

end Swarm

end Danmaku
