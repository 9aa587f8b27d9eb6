import Danmaku.Proofs.SharedValues

/-! What goes into the key of a shared value. The climb to the owner is the line of emitters, and the hash folds in what
stands on this line below the owner: the origins of all projectiles there, and, where each shot has a value of its own,
the shot order of the last one. A draw with the key changes nothing but the memo of the owner. -/

namespace Danmaku

namespace Swarm

/-- The origin of the projectile so many steps up. -/
def originAt (s : Swarm) (id : ProjectileId) (distance : Nat) : UInt32 :=
  (s.ancestor? id distance).elim 0 (·.birth.origin.combined)

/-- The origins at all distances below `n`, folded together. -/
def foldedOrigins (s : Swarm) (id : ProjectileId) (n : Nat) : UInt32 :=
  ((List.range n).map (s.originAt id)).foldl (· ^^^ ·) 0

/-- The shot order of the last projectile below the owner at distance `n`, or of the owner itself at distance zero. -/
def shotOrder (s : Swarm) (id : ProjectileId) (n : Nat) : UInt32 :=
  (s.ancestor? id (n - 1)).elim 0 (·.birth.shotIndex)

variable {s : Swarm} {id parent : ProjectileId} {p q : Projectile} {n : Nat}

/-! Lines of emitters. -/

theorem ancestor?_of_not_found (missing : s.find? id = none) (n : Nat) : s.ancestor? id n = none := by
  cases n with
  | zero => exact missing
  | succ n =>
      rw [ancestor?, missing]
      rfl

theorem ancestor?_succ (found : s.find? id = some p) (n : Nat) :
    s.ancestor? id (n + 1) = p.parent.bind (s.ancestor? · n) := by
  simp only [ancestor?, found, Option.bind_eq_bind, Option.bind_some]

/-- An ancestor is found by its own id. -/
theorem find?_of_ancestor? (h : s.ancestor? id n = some p) : s.find? p.id = some p := by
  induction n generalizing id with
  | zero =>
      have found : s.find? id = some p := h
      rw [id_of_find? found, found]
  | succ n ih =>
      obtain ⟨q, -, h⟩ := Option.bind_eq_some_iff.1 h
      obtain ⟨parent, -, h⟩ := Option.bind_eq_some_iff.1 h
      exact ih h

/-- On the way to an ancestor, all ancestors are there. -/
theorem isSome_ancestor?_of_le {m : Nat} (h : (s.ancestor? id n).isSome = true) (le : m ≤ n) :
    (s.ancestor? id m).isSome = true := by
  induction m generalizing id n with
  | zero =>
      cases found : s.find? id with
      | none =>
          rw [ancestor?_of_not_found found] at h
          cases h
      | some p =>
          rw [ancestor?, found]
          rfl
  | succ m ih =>
      obtain ⟨n, rfl⟩ : ∃ k, n = k + 1 := ⟨n - 1, by omega⟩
      cases found : s.find? id with
      | none =>
          rw [ancestor?_of_not_found found] at h
          cases h
      | some p =>
          rw [ancestor?_succ found] at h ⊢
          cases hp : p.parent with
          | none =>
              rw [hp] at h
              cases h
          | some parent =>
              rw [hp] at h
              exact ih h (Nat.le_of_succ_le_succ le)

theorem foldl_xor (hash : UInt32) (origins : List UInt32) :
    origins.foldl (· ^^^ ·) hash = hash ^^^ origins.foldl (· ^^^ ·) 0 := by
  induction origins generalizing hash with
  | nil => exact UInt32.xor_zero.symm
  | cons origin origins ih =>
      rw [List.foldl_cons, List.foldl_cons, ih, ih (0 ^^^ origin), UInt32.zero_xor, UInt32.xor_assoc]

theorem foldedOrigins_succ (found : s.find? id = some p) (emitter : p.parent = some parent) (n : Nat) :
    s.foldedOrigins id (n + 1) = p.birth.origin.combined ^^^ s.foldedOrigins parent n := by
  have first : s.originAt id 0 = p.birth.origin.combined := by
    rw [originAt, ancestor?, found]
    rfl
  have others : (List.range n).map (fun m => s.originAt id (m + 1)) = (List.range n).map (s.originAt parent) := by
    refine List.map_congr_left fun m _ => ?_
    rw [originAt, originAt, ancestor?_succ found, emitter, Option.bind_some]
  rw [foldedOrigins, List.range_succ_eq_map, List.map_cons, List.map_map, List.foldl_cons, first, UInt32.zero_xor,
    foldl_xor]
  exact congrArg (fun origins => _ ^^^ origins.foldl (· ^^^ ·) 0) others

theorem shotOrder_zero (found : s.find? id = some p) : s.shotOrder id 0 = p.birth.shotIndex := by
  rw [shotOrder, ancestor?, found]
  rfl

theorem shotOrder_one (found : s.find? id = some p) : s.shotOrder id 1 = p.birth.shotIndex := shotOrder_zero found

theorem shotOrder_succ (found : s.find? id = some p) (emitter : p.parent = some parent) (n : Nat) :
    s.shotOrder id (n + 2) = s.shotOrder parent (n + 1) := by
  rw [shotOrder, shotOrder, Nat.add_sub_cancel, Nat.add_succ_sub_one, ancestor?_succ found, emitter, Option.bind_some]

/-! Changes of one projectile. -/

/-- A change of a projectile that is found replaces it. -/
theorem modify_of_find? (found : s.find? id = some p) :
    ∃ i, s.projectiles[i]? = some p ∧
      ∀ f, s.modify id f = { s with projectiles := s.projectiles.setIfInBounds i (f p) } := by
  obtain ⟨i, hi, hp⟩ := find?_eq_some_iff.1 found
  refine ⟨i, hp, fun f => ?_⟩
  rw [modify_of_position? hi]
  congr 1
  refine Array.ext_getElem? fun j => ?_
  have hlt := (Array.getElem?_eq_some_iff.1 hp).1
  rw [Array.getElem?_modify, Array.getElem?_setIfInBounds]
  split
  · rename_i hj
    rw [← hj, hp]
    rfl
  · rfl

theorem modify_congr {f g : Projectile → Projectile} (found : s.find? id = some p) (same : f p = g p) :
    s.modify id f = s.modify id g := by
  obtain ⟨i, -, replaced⟩ := modify_of_find? found
  rw [replaced, replaced, same]

theorem modify_eq_self {f : Projectile → Projectile} (found : s.find? id = some p) (same : f p = p) :
    s.modify id f = s := by
  obtain ⟨i, hp, replaced⟩ := modify_of_find? found
  obtain ⟨hi, rfl⟩ := Array.getElem?_eq_some_iff.1 hp
  rw [replaced, same, Array.setIfInBounds_def, dif_pos hi, Array.set_getElem_self]

theorem find?_modify_of_ne {f : Projectile → Projectile} (keeps : ∀ p, (f p).id = p.id) {other : ProjectileId}
    (ne : other ≠ id) : (s.modify id f).find? other = s.find? other := by
  cases hi : s.position? id with
  | none => rw [modify_of_not_found hi]
  | some i =>
      have ids : (s.projectiles.modify i f).map (·.id) = s.projectiles.map (·.id) := by
        refine Array.ext (by simp) fun j hj hj' => ?_
        rw [Array.getElem_map, Array.getElem_map, Array.getElem_modify]
        split
        · exact keeps _
        · rfl
      rw [modify_of_position? hi, find?, find?, position?_congr ids]
      cases hj : s.position? other with
      | none => rfl
      | some j =>
          obtain ⟨hlt, hid⟩ := getElem_of_position? hi
          obtain ⟨hlt', hid'⟩ := getElem_of_position? hj
          have elsewhere : i ≠ j := by
            rintro rfl
            exact ne (hid'.symm.trans hid)
          rw [Option.bind_some, Option.bind_some, Array.getElem?_modify, if_neg elsewhere]

end Swarm

namespace SharedKey

open Swarm

variable {s s' : Swarm} {id : ProjectileId} {p : Projectile} {operation : UInt32} {factor : RandomFactor}

/-- The climb is the line of emitters. On the way it takes up the origins below the owner, and the shot order of the
last projectile it leaves. -/
theorem climb_eq (found : s.find? id = some p) (hash order : UInt32) (n : Nat) :
    climb s p hash order n = (s.ancestor? id n).map fun owner =>
      (owner, hash ^^^ s.foldedOrigins id n, if n = 0 then order else s.shotOrder id n) := by
  induction n generalizing p id hash order with
  | zero =>
      rw [ancestor?, found]
      exact congrArg (fun hash => some (p, hash, order)) UInt32.xor_zero.symm
  | succ n ih =>
      rw [ancestor?_succ found, climb]
      cases emitter : p.parent with
      | none => rfl
      | some parent =>
          simp only [Option.bind_eq_bind, Option.bind_some]
          cases there : s.find? parent with
          | none => rw [ancestor?_of_not_found there, Option.bind_none, Option.map_none]
          | some q =>
              rw [Option.bind_some, ih there, foldedOrigins_succ found emitter, ← UInt32.xor_assoc]
              -- The projectile that is left here is the last one if the next is the owner.
              cases n with
              | zero => rw [if_pos rfl, if_neg Nat.one_ne_zero, shotOrder_one found]
              | succ n =>
                  rw [if_neg (Nat.succ_ne_zero n), if_neg (Nat.succ_ne_zero (n + 1)), shotOrder_succ found emitter]

/-- What goes into a hash before it is cut to its length. -/
def combine (s : Swarm) (id : ProjectileId) (operation : UInt32) (factor : RandomFactor) : UInt32 :=
  operation ^^^ s.foldedOrigins id factor.distance.toNat ^^^
    if factor.perShot then shotOrderPrime * s.shotOrder id factor.distance.toNat else 0

theorem of?_eq (s : Swarm) (id : ProjectileId) (operation : UInt32) (factor : RandomFactor) :
    of? s id operation factor = (s.ancestor? id factor.distance.toNat).map fun owner =>
      ⟨owner.id, combine s id operation factor &&& hashMask⟩ := by
  unfold of?
  cases found : s.find? id with
  | none =>
      rw [ancestor?_of_not_found found]
      rfl
  | some p =>
      have last : (if factor.distance.toNat = 0 then p.birth.shotIndex else s.shotOrder id factor.distance.toNat) =
          s.shotOrder id factor.distance.toNat := by
        split
        · rename_i zero
          rw [zero, shotOrder_zero found]
        · rfl
      simp only [Option.bind_eq_bind, Option.bind_some, climb_eq found, last]
      cases s.ancestor? id factor.distance.toNat with
      | none => rfl
      | some owner =>
          rw [Option.map_some, Option.map_some, Option.bind_some, combine]
          cases factor.perShot with
          | false => rw [if_neg Bool.false_ne_true, if_neg Bool.false_ne_true, UInt32.xor_zero]; rfl
          | true => rw [if_pos rfl, if_pos rfl, UInt32.mul_comm]; rfl

theorem toNat_and_hashMask (hash : UInt32) : (hash &&& hashMask).toNat = hash.toNat % 0x1000000 := by
  rw [UInt32.toNat_and]
  exact Nat.and_two_pow_sub_one_eq_mod hash.toNat 24

end SharedKey

namespace Swarm

/-- A draw with a key changes the memo of the owner and nothing else. -/
theorem exists_memo_of_sharedDraw? {s s' : Swarm} {id : ProjectileId} {operation : UInt32} {factor : RandomFactor}
    {key : SharedKey} {x : Single} (hkey : SharedKey.of? s id operation factor = some key)
    (drawn : s.sharedDraw? id operation factor = some (x, s')) :
    ∃ memo, s' = s.modify key.owner fun p => { p with memo } := by
  obtain ⟨⟨owner, howner⟩, -⟩ := SharedKey.of?_eq_some hkey
  rw [sharedDraw?_of_key hkey howner] at drawn
  cases known : owner.memoized? key.hash with
  | some value =>
      rw [known] at drawn
      obtain ⟨-, rfl⟩ := Prod.mk.inj (Option.some.inj drawn)
      exact ⟨owner.memo, (modify_eq_self howner rfl).symm⟩
  | none =>
      rw [known] at drawn
      obtain ⟨-, rfl⟩ := Prod.mk.inj (Option.some.inj drawn)
      refine ⟨(key.hash, SharedKey.seededValue owner.seed key.hash) :: owner.memo, modify_congr howner ?_⟩
      rw [Projectile.memoize, known]

end Swarm

namespace SharedKey

open Swarm

/-- There is a key exactly if the ancestor at the distance of the factor is there, for any swarm and any projectile,
dead or alive, whatever its emitters are. The ancestor is the owner, all ancestors up to it are there, and the hash is
the operation with what stands on the line: the origins of the projectile and its ancestors below the owner, and for a
factor that is drawn per shot the shot order of the last of them, or of the owner where there are none, times a prime.
A draw with the key changes no memo but the owner's, and nothing but memos. -/
theorem of?_folds_line (s : Swarm) (id : ProjectileId) (operation : UInt32) (factor : RandomFactor) :
    (of? s id operation factor).isSome = (s.ancestor? id factor.distance.toNat).isSome ∧
    ∀ key, of? s id operation factor = some key →
      (∀ m, m ≤ factor.distance.toNat → (s.ancestor? id m).isSome = true) ∧
      (∃ owner, s.ancestor? id factor.distance.toNat = some owner ∧ s.find? owner.id = some owner ∧
        key.owner = owner.id) ∧
      key.hash.toNat = (operation ^^^ s.foldedOrigins id factor.distance.toNat ^^^
        if factor.perShot then 805306457 * s.shotOrder id factor.distance.toNat else 0).toNat % 0x1000000 ∧
      ∀ x s', s.sharedDraw? id operation factor = some (x, s') →
        (∃ memo, s' = s.modify key.owner fun p => { p with memo }) ∧
        ∀ other, other ≠ key.owner → s'.find? other = s.find? other := by
  refine ⟨by rw [of?_eq, Option.isSome_map], fun key hkey => ?_⟩
  have made := hkey
  rw [of?_eq] at made
  obtain ⟨owner, howner, rfl⟩ := Option.map_eq_some_iff.1 made
  refine ⟨fun m => isSome_ancestor?_of_le (by rw [howner]; rfl), ⟨owner, howner, find?_of_ancestor? howner, rfl⟩,
    toNat_and_hashMask _, fun x s' drawn => ?_⟩
  obtain ⟨memo, rfl⟩ := exists_memo_of_sharedDraw? hkey drawn
  refine ⟨⟨memo, rfl⟩, fun other ne => ?_⟩
  have keeps (p : Projectile) : ({ p with memo } : Projectile).id = p.id := rfl
  exact find?_modify_of_ne keeps ne

/-- A projectile, its child, and the child of the child. -/
def generations : Swarm :=
  ((((ofSeed 11).spawnRoot { pattern := 1 }).2.spawn (some ⟨1⟩) { origin := { shot := 2 }, shotIndex := 5 }).2.spawn
    (some ⟨2⟩) { origin := { bullet := 4 }, shotIndex := 9 }).2

/-- The key of the youngest, two steps up: its own origin and that of the middle one go in, and the shot order of the
middle one. -/
theorem key_of_generations :
    of? generations ⟨3⟩ 8 { shared := true, distance := 2, perShot := true } = some ⟨⟨1⟩, 0x1b3⟩ ∧
    (8 ^^^ generations.foldedOrigins ⟨3⟩ 2 ^^^ 805306457 * generations.shotOrder ⟨3⟩ 2).toNat % 0x1000000 = 0x1b3 ∧
    generations.foldedOrigins ⟨3⟩ 2 = 4 ^^^ 2 ∧ generations.shotOrder ⟨3⟩ 2 = 5 ∧
    ∃ x s', generations.sharedDraw? ⟨3⟩ 8 { shared := true, distance := 2, perShot := true } = some (x, s') ∧
      ∀ other, other ≠ ⟨1⟩ → s'.find? other = generations.find? other := by
  have hkey : of? generations ⟨3⟩ 8 { shared := true, distance := 2, perShot := true } = some ⟨⟨1⟩, 0x1b3⟩ := by
    decide +kernel
  have drawn : (generations.sharedDraw? ⟨3⟩ 8 { shared := true, distance := 2, perShot := true }).isSome = true := by
    decide +kernel
  obtain ⟨-, line⟩ := of?_folds_line generations ⟨3⟩ 8 { shared := true, distance := 2, perShot := true }
  obtain ⟨-, -, hash, kept⟩ := line _ hkey
  obtain ⟨⟨x, s'⟩, drawn⟩ := Option.isSome_iff_exists.1 drawn
  exact ⟨hkey, hash.symm, by decide +kernel, by decide +kernel, x, s', drawn, (kept x s' drawn).2⟩

end SharedKey

end Danmaku
