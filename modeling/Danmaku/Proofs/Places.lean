import Danmaku.Swarm

/-! The places of projectiles in a swarm. What is found, changed or removed by an id is at one place, which the
search for the id gives. Where the ids ascend, the search misses none, and a change or a removal by place is one
by id. -/

namespace Danmaku

theorem ProjectileId.toNat_inj {a b : ProjectileId} : a.val.toNat = b.val.toNat ↔ a = b :=
  ⟨fun h => congrArg ProjectileId.mk (UInt32.toNat_inj.1 h), fun h => congrArg (·.val.toNat) h⟩

namespace Swarm

variable {s : Swarm} {id : ProjectileId} {p : Projectile}

theorem draw_eq (s : Swarm) : s.draw = (s.generator.draw.1, { s with generator := s.generator.draw.2 }) := rfl

theorem spawn_eq (s : Swarm) (parent : Option ProjectileId) (birth : Birth) :
    s.spawn parent birth = (s.nextId, { s with
      generator := s.generator.draw.2
      projectiles := s.projectiles.push { id := s.nextId, parent, birth, seed := s.generator.draw.1 }
      nextId := ⟨s.nextId.val + 1⟩ }) := rfl

theorem getElem_of_position? {i : Nat} (h : s.position? id = some i) :
    ∃ hi : i < s.projectiles.size, s.projectiles[i].id = id := by
  obtain ⟨hi, hkey⟩ := Search.getElem_of_position? h
  exact ⟨hi, ProjectileId.toNat_inj.1 hkey⟩

theorem find?_of_position? {i : Nat} (h : s.position? id = some i) : s.find? id = s.projectiles[i]? := by
  rw [find?, h]
  rfl

/-- A search looks at nothing but the ids. -/
theorem position?_congr {s' : Swarm} (ids : s'.projectiles.map (·.id) = s.projectiles.map (·.id)) :
    s'.position? id = s.position? id := by
  have place (s : Swarm) : s.position? id =
      Search.position? (fun id : ProjectileId => id.val.toNat) (s.projectiles.map (·.id)) id.val.toNat := by
    rw [Search.position?_map]
    rfl
  rw [place, place, ids]

theorem find?_eq_some_iff :
    s.find? id = some p ↔ ∃ i, s.position? id = some i ∧ s.projectiles[i]? = some p :=
  Option.bind_eq_some_iff

theorem id_of_find? (h : s.find? id = some p) : p.id = id := by
  obtain ⟨i, hi, hp⟩ := find?_eq_some_iff.1 h
  obtain ⟨hlt, hid⟩ := getElem_of_position? hi
  rw [Array.getElem?_eq_getElem hlt] at hp
  obtain rfl := Option.some.inj hp
  exact hid

theorem mem_of_find? (h : s.find? id = some p) : p ∈ s.projectiles := by
  obtain ⟨i, -, hp⟩ := find?_eq_some_iff.1 h
  exact Array.mem_of_getElem? hp

theorem modify_of_position? {i : Nat} (h : s.position? id = some i) (f : Projectile → Projectile) :
    s.modify id f = { s with projectiles := s.projectiles.modify i f } := by
  rw [modify, h]

theorem modify_of_not_found (h : s.position? id = none) (f : Projectile → Projectile) : s.modify id f = s := by
  rw [modify, h]

@[simp] theorem generator_modify (s : Swarm) (id : ProjectileId) (f : Projectile → Projectile) :
    (s.modify id f).generator = s.generator := by
  unfold modify
  split <;> rfl

@[simp] theorem nextId_modify (s : Swarm) (id : ProjectileId) (f : Projectile → Projectile) :
    (s.modify id f).nextId = s.nextId := by
  unfold modify
  split <;> rfl

/-- What a change keeps of every projectile it keeps of the swarm. -/
theorem map_modify {α : Type} (s : Swarm) (id : ProjectileId) {f : Projectile → Projectile} {g : Projectile → α}
    (same : ∀ p, g (f p) = g p) : (s.modify id f).projectiles.map g = s.projectiles.map g := by
  cases place : s.position? id with
  | none => rw [modify_of_not_found place]
  | some i =>
      rw [modify_of_position? place]
      refine Array.ext (by simp) fun j hj hj' => ?_
      simp only [Array.getElem_map, Array.getElem_modify]
      split
      · exact same _
      · rfl

/-- A change of the projectile of an id leaves all others, and changes the one that is found by it. -/
theorem mem_modify {f : Projectile → Projectile} (h : p ∈ (s.modify id f).projectiles) :
    p ∈ s.projectiles ∨ ∃ q, s.find? id = some q ∧ p = f q := by
  cases hi : s.position? id with
  | none =>
      rw [modify_of_not_found hi] at h
      exact Or.inl h
  | some i =>
      rw [modify_of_position? hi] at h
      obtain ⟨j, hj, rfl⟩ := Array.mem_iff_getElem.1 h
      have hj' : j < s.projectiles.size := by simpa using hj
      rw [Array.getElem_modify]
      split
      · rename_i hij
        subst hij
        exact Or.inr ⟨s.projectiles[i], (find?_of_position? hi).trans (Array.getElem?_eq_getElem hj'), rfl⟩
      · exact Or.inl (Array.getElem_mem hj')

theorem mem_of_mem_despawn (h : p ∈ (s.despawn id).2.projectiles) : p ∈ s.projectiles := by
  unfold despawn at h
  split at h
  · rename_i i _
    simp only [Array.eraseIdxIfInBounds] at h
    split at h
    · exact Array.mem_of_mem_eraseIdx h
    · exact h
  · exact h

/-- The ids of the projectiles ascend. -/
def Ordered (s : Swarm) : Prop := Search.Ascending (fun p : Projectile => p.id.val.toNat) s.projectiles

namespace Ordered

theorem position?_eq_some_iff (h : s.Ordered) {i : Nat} :
    s.position? id = some i ↔ ∃ hi : i < s.projectiles.size, s.projectiles[i].id = id := by
  refine ⟨getElem_of_position?, fun ⟨hi, hid⟩ => ?_⟩
  exact (Search.position?_eq_some_iff h).2 ⟨hi, ProjectileId.toNat_inj.2 hid⟩

theorem ne_of_not_found (h : s.Ordered) (missing : s.position? id = none) (hp : p ∈ s.projectiles) : p.id ≠ id := by
  intro hid
  obtain ⟨i, hi, rfl⟩ := Array.mem_iff_getElem.1 hp
  rw [h.position?_eq_some_iff.2 ⟨hi, hid⟩] at missing
  cases missing

theorem find?_eq_some_iff (h : s.Ordered) : s.find? id = some p ↔ p ∈ s.projectiles ∧ p.id = id := by
  refine ⟨fun hp => ⟨mem_of_find? hp, id_of_find? hp⟩, fun ⟨hp, hid⟩ => ?_⟩
  obtain ⟨i, hi, rfl⟩ := Array.mem_iff_getElem.1 hp
  rw [find?_of_position? (h.position?_eq_some_iff.2 ⟨hi, hid⟩), Array.getElem?_eq_getElem hi]

theorem modify_eq (h : s.Ordered) (id : ProjectileId) (f : Projectile → Projectile) :
    s.modify id f = { s with projectiles := s.projectiles.map fun p => if p.id = id then f p else p } := by
  cases hi : s.position? id with
  | none =>
      have same : s.projectiles.map (fun p => if p.id = id then f p else p) = s.projectiles.map fun p => p :=
        Array.map_congr_left fun p hp => if_neg (h.ne_of_not_found hi hp)
      rw [modify_of_not_found hi, same, Array.map_id']
  | some i =>
      rw [modify_of_position? hi]
      congr 1
      apply Array.ext
      · rw [Array.size_modify, Array.size_map]
      · intro j hj _
        have hj' : j < s.projectiles.size := by simpa using hj
        have here : i = j ↔ s.projectiles[j].id = id := by
          constructor
          · rintro rfl
            exact (getElem_of_position? hi).2
          · intro hid
            exact Option.some.inj (hi.symm.trans (h.position?_eq_some_iff.2 ⟨hj', hid⟩))
        rw [Array.getElem_modify, Array.getElem_map]
        simp only [here]

theorem despawn_eq (h : s.Ordered) (id : ProjectileId) :
    s.despawn id = ((s.find? id).isSome, { s with projectiles := s.projectiles.filter (·.id ≠ id) }) := by
  unfold despawn
  cases hi : s.position? id with
  | none =>
      have same : s.projectiles.filter (·.id ≠ id) = s.projectiles :=
        Array.filter_eq_self.2 fun p hp => decide_eq_true (h.ne_of_not_found hi hp)
      rw [same, find?, hi]
      rfl
  | some i =>
      obtain ⟨hlt, hid⟩ := getElem_of_position? hi
      have erased : s.projectiles.eraseIdxIfInBounds i = s.projectiles.filter (·.id ≠ id) := by
        apply Array.toList_inj.1
        rw [show s.projectiles.eraseIdxIfInBounds i = s.projectiles.eraseIdx i hlt from dif_pos hlt,
          Array.toList_eraseIdx, Search.eraseIdx_eq_filter h (by simpa using hlt), Array.toList_filter]
        refine List.filter_congr fun p _ => ?_
        rw [Array.getElem_toList, hid]
        exact decide_eq_decide.2 (not_congr ProjectileId.toNat_inj)
      rw [find?_of_position? hi, Array.getElem?_eq_getElem hlt, ← erased]
      rfl

end Ordered

/-- All ids are below the next one. -/
def Below (s : Swarm) : Prop := ∀ p ∈ s.projectiles, p.id.val.toNat < s.nextId.val.toNat

theorem Ordered.spawn (h : s.Ordered) (below : s.Below) (parent : Option ProjectileId) (birth : Birth) :
    (s.spawn parent birth).2.Ordered := by
  rw [Ordered, Search.Ascending, spawn_eq, Array.toList_push, List.pairwise_append]
  refine ⟨h, List.pairwise_singleton _ _, fun p hp q hq => ?_⟩
  obtain rfl := List.mem_singleton.1 hq
  exact below p (Array.mem_toList_iff.1 hp)

theorem nextId_spawn (room : s.nextId.val.toNat + 1 < UInt32.size) (parent : Option ProjectileId) (birth : Birth) :
    (s.spawn parent birth).2.nextId.val.toNat = s.nextId.val.toNat + 1 := by
  rw [spawn_eq, UInt32.toNat_add, UInt32.toNat_one]
  exact Nat.mod_eq_of_lt room

theorem Below.spawn (h : s.Below) (room : s.nextId.val.toNat + 1 < UInt32.size) (parent : Option ProjectileId)
    (birth : Birth) : (s.spawn parent birth).2.Below := by
  intro p hp
  rw [nextId_spawn room]
  rw [spawn_eq, Array.mem_push] at hp
  rcases hp with hp | rfl
  · exact Nat.lt_succ_of_lt (h p hp)
  · exact Nat.lt_succ_self _

end Swarm

end Danmaku
