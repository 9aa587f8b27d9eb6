import Danmaku.Proofs.SharedValues

/-! What a projectile is born with stays. Whatever happens to a swarm, its births go on from the next id, and an id
that was given before has the emitter and the birth that it had, for as long as its projectile lives. -/

namespace Danmaku

namespace Swarm

/-- The id of every projectile with its emitter and its birth, in order. -/
def register (s : Swarm) : List (ProjectileId × Option ProjectileId × Birth) :=
  s.projectiles.toList.map fun p => (p.id, p.parent, p.birth)

/-- The registers are the same, and so are the ids that come next. -/
structure SameBirths (s s' : Swarm) : Prop where
  register : s'.register = s.register
  nextId : s'.nextId = s.nextId

section Register

variable {s s' : Swarm}

theorem mem_register {p : Projectile} (h : p ∈ s.projectiles) : (p.id, p.parent, p.birth) ∈ s.register :=
  List.mem_map_of_mem (Array.mem_toList_iff.2 h)

theorem ordered_iff_register : s.Ordered ↔ s.register.Pairwise fun e e' => e.1.val.toNat < e'.1.val.toNat :=
  Iff.symm (List.pairwise_map (R := fun e e' : ProjectileId × Option ProjectileId × Birth =>
    e.1.val.toNat < e'.1.val.toNat))

theorem below_iff_register : s.Below ↔ ∀ e ∈ s.register, e.1.val.toNat < s.nextId.val.toNat := by
  simp only [Below, register, List.forall_mem_map, Array.mem_toList_iff]

theorem register_spawn (s : Swarm) (parent : Option ProjectileId) (birth : Birth) :
    (s.spawn parent birth).2.register = s.register ++ [(s.nextId, parent, birth)] := by
  rw [register, spawn_eq, Array.toList_push, List.map_append]
  rfl

theorem register_despawn_subset (s : Swarm) (id : ProjectileId) : (s.despawn id).2.register ⊆ s.register := by
  intro e he
  obtain ⟨p, hp, rfl⟩ := List.mem_map.1 he
  exact mem_register (mem_of_mem_despawn (Array.mem_toList_iff.1 hp))

theorem SameBirths.modify (h : s.SameBirths s') (id : ProjectileId) {f : Projectile → Projectile}
    (same : ∀ p, ((f p).id, (f p).parent, (f p).birth) = (p.id, p.parent, p.birth)) :
    s.SameBirths (s'.modify id f) where
  register := by
    rw [← h.register, Swarm.register, Swarm.register, ← Array.toList_map, ← Array.toList_map]
    exact congrArg Array.toList (s'.map_modify id same)
  nextId := (s'.nextId_modify id f).trans h.nextId

theorem SameBirths.shared (h : s.SameBirths s') {id : ProjectileId} {operation : UInt32} {factor : RandomFactor}
    {x : Single} {s'' : Swarm} (drawn : s'.sharedDraw? id operation factor = some (x, s'')) : s.SameBirths s'' := by
  rcases eq_or_modify_of_sharedDraw? drawn with rfl | ⟨owner, hash, -, -, rfl⟩
  · exact h
  · refine h.modify owner.id fun p => ?_
    unfold Projectile.memoize
    split <;> rfl

theorem SameBirths.reseed (h : s.SameBirths s') (g : Pcg) : s.SameBirths { s' with generator := g } :=
  ⟨h.register, h.nextId⟩

/-- Neither draws nor new custom values make a birth. -/
theorem keptByUpdates_sameBirths (s : Swarm) : KeptByUpdates s.SameBirths where
  fresh := fun s' h => by
    rw [draw_eq]
    exact h.reseed _
  shared := fun _ _ _ _ _ _ drawn h => h.shared drawn
  custom := fun _ id _ h => h.modify id fun _ => rfl

theorem SameBirths.advance (h : s.SameBirths s') (dt : Single) : s.SameBirths (s'.advance dt) where
  register := by
    rw [← h.register, Swarm.register, Swarm.advance, Array.toList_map, List.map_map]
    rfl
  nextId := h.nextId

end Register

/-- The second swarm comes so many births after the first. Its ids ascend, the next one is as many further, and the
ids that were given before the births have in its register what they had. -/
structure Later (s : Swarm) (n : Nat) (s' : Swarm) : Prop where
  ordered : s'.Ordered
  below : s'.Below
  nextId : s'.nextId.val.toNat = s.nextId.val.toNat + n
  register : ∀ e ∈ s'.register, e.1.val.toNat < s.nextId.val.toNat → e ∈ s.register

namespace Later

variable {s s' s'' : Swarm} {n : Nat}

theorem refl (ordered : s.Ordered) (below : s.Below) : s.Later 0 s := ⟨ordered, below, rfl, fun _ he _ => he⟩

theorem same (h : s.Later n s') (same : s'.SameBirths s'') : s.Later n s'' where
  ordered := by
    rw [ordered_iff_register, same.register, ← ordered_iff_register]
    exact h.ordered
  below := by
    rw [below_iff_register, same.register, same.nextId, ← below_iff_register]
    exact h.below
  nextId := by rw [same.nextId, h.nextId]
  register := by
    rw [same.register]
    exact h.register

theorem spawn (h : s.Later n s') (room : s.nextId.val.toNat + (n + 1) < UInt32.size) (parent : Option ProjectileId)
    (birth : Birth) : s.Later (n + 1) (s'.spawn parent birth).2 := by
  have next := h.nextId
  have one : s'.nextId.val.toNat + 1 < UInt32.size := by omega
  refine ⟨h.ordered.spawn h.below parent birth, h.below.spawn one parent birth, ?_, fun e he old => ?_⟩
  · rw [nextId_spawn one, next, Nat.add_assoc]
  · rw [register_spawn, List.mem_append, List.mem_singleton] at he
    rcases he with he | rfl
    · exact h.register e he old
    · -- The new id is not below the next one.
      dsimp only at old
      omega

theorem spawnAll (h : s.Later n s') (parent : Option ProjectileId) (births : List Birth)
    (room : s.nextId.val.toNat + (n + births.length) < UInt32.size) :
    s.Later (n + births.length) (s'.spawnAll parent births).2 := by
  induction births generalizing n s' with
  | nil => exact h
  | cons birth births ih =>
      rw [List.length_cons, Nat.add_comm births.length, ← Nat.add_assoc n] at room ⊢
      exact ih (h.spawn (by omega) parent birth) room

theorem despawn (h : s.Later n s') (id : ProjectileId) : s.Later n (s'.despawn id).2 where
  ordered := by
    rw [h.ordered.despawn_eq, Ordered, Search.Ascending, Array.toList_filter]
    exact h.ordered.filter _
  below := by
    have next : (s'.despawn id).2.nextId = s'.nextId := by rw [h.ordered.despawn_eq]
    intro p hp
    rw [next]
    exact h.below p (mem_of_mem_despawn hp)
  nextId := by
    rw [h.ordered.despawn_eq]
    exact h.nextId
  register := fun e he => h.register e (register_despawn_subset s' id he)

end Later

variable {s s' : Swarm} {n : Nat} {id : ProjectileId} {p q : Projectile}

/-- As long as there are ids, what happens to a swarm makes it a later one. -/
theorem Reaches.later (h : s.Reaches n s') (ordered : s.Ordered) (below : s.Below)
    (room : s.nextId.val.toNat + n < UInt32.size) : s.Later n s' := by
  induction h with
  | refl => exact .refl ordered below
  | spawn _ parent birth ih => exact (ih (by omega)).spawn room parent birth
  | spawnRoot _ origin ih => exact (ih (by omega)).spawn room none _
  | spawnVolley _ volley muzzle ih =>
      rw [← List.length_map (muzzle.birth volley.shot)] at room ⊢
      exact (ih (by omega)).spawnAll muzzle.emitter _ room
  | despawn _ id ih => exact (ih room).despawn id
  | advance _ dt ih => exact (ih room).same (SameBirths.advance ⟨rfl, rfl⟩ dt)
  | flushMemo _ id ih => exact (ih room).same (SameBirths.modify ⟨rfl, rfl⟩ id fun _ => rfl)
  | setCustom _ id change ih => exact (ih room).same ((keptByUpdates_sameBirths _).custom _ id change ⟨rfl, rfl⟩)
  | draw _ ih => exact (ih room).same ((keptByUpdates_sameBirths _).fresh _ ⟨rfl, rfl⟩)
  | sharedDraw _ id operation factor drawn ih => exact (ih room).same (SameBirths.shared ⟨rfl, rfl⟩ drawn)
  | resolve _ t i view owner operation ih =>
      exact (ih room).same (keeps_resolveFrom (keptByUpdates_sameBirths _).toKeptByDraws t i view owner operation
        { swarm := _ } ⟨rfl, rfl⟩)
  | shot _ shot view ih =>
      exact (ih room).same (keeps_shot (keptByUpdates_sameBirths _).toKeptByDraws shot view { swarm := _ } ⟨rfl, rfl⟩)
  | update _ p dt globals ih =>
      exact (ih room).same (p.keeps_update (keptByUpdates_sameBirths _) dt globals ⟨rfl, rfl⟩)

/-- An id that was given before finds no other emitter and no other birth. -/
theorem Later.birth_eq (h : s.Later n s') (ordered : s.Ordered) (below : s.Below) (before : s.find? id = some p)
    (after : s'.find? id = some q) : q.parent = p.parent ∧ q.birth = p.birth := by
  have old : id.val.toNat < s.nextId.val.toNat := by
    rw [← id_of_find? before]
    exact below p (mem_of_find? before)
  have entry := h.register _ (mem_register (mem_of_find? after)) (by rwa [id_of_find? after])
  obtain ⟨p', hp', same⟩ := List.mem_map.1 entry
  simp only [Prod.mk.injEq] at same
  obtain ⟨hid, parent, birth⟩ := same
  have found : s.find? id = some p' :=
    ordered.find?_eq_some_iff.2 ⟨Array.mem_toList_iff.1 hp', hid.trans (id_of_find? after)⟩
  obtain rfl := Option.some.inj (before.symm.trans found)
  exact ⟨parent.symm, birth.symm⟩

end Swarm

end Danmaku
