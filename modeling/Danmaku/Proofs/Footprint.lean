import Mathlib.Logic.Function.Iterate
import Mathlib.Logic.Relation
import Danmaku.Proofs.SharedValues

/-! The footprint of an update in the swarm. An update may advance the generator, note shared values that were not
noted yet, and write to the custom table of its emitter what its enabled instructions write. It leaves all else as
it was: the projectiles and the next id, and of every projectile its emitter, birth, seed and age, what its memo
holds and its other custom values. -/

namespace Danmaku

namespace Blackboard

variable {b b' : Blackboard} {name : String} {delta sum : Single}

theorem eq_set_of_add? (h : b.add? name delta = some (sum, b')) : b' = b.set name (.float sum) := by
  unfold add? at h
  split at h
  · obtain ⟨rfl, rfl⟩ := Prod.mk.inj (Option.some.inj h)
    rfl
  · obtain ⟨x, -, h⟩ := Option.bind_eq_some_iff.1 h
    obtain ⟨rfl, rfl⟩ := Prod.mk.inj (Option.some.inj h)
    rfl

/-- Nothing is added to what is not a number. -/
theorem add?_eq_none {value : Payload} (found : b.find? name = some value)
    (other : (ofPayload? value : Option Single) = none) (delta : Single) : b.add? name delta = none := by
  simp only [add?, found, other]
  rfl

end Blackboard

namespace Action

/-- The custom value that an action writes. -/
def custom? : Action → Option String
  | setCustom name _ | addCustom name _ => some name
  | _ => none

variable {a : Action} {b b' : Blackboard} {name : String}

theorem Writes.exists_set (h : a.Writes b b') : ∃ name value, a.custom? = some name ∧ b' = b.set name value := by
  cases h with
  | set name p value => exact ⟨name, _, rfl, rfl⟩
  | add name p added => exact ⟨name, _, rfl, Blackboard.eq_set_of_add? added⟩

theorem Writes.find?_of_ne (h : a.Writes b b') (other : a.custom? ≠ some name) : b'.find? name = b.find? name := by
  obtain ⟨written, value, hwritten, rfl⟩ := h.exists_set
  rw [Blackboard.find?_set, if_neg]
  rintro rfl
  exact other hwritten

/-- What is not a number can be set to something else, but not added to. -/
theorem Writes.find?_of_not_number (h : a.Writes b b') {value : Payload} (found : b.find? name = some value)
    (other : (ofPayload? value : Option Single) = none) (set : ∀ p, a ≠ .setCustom name p) :
    b'.find? name = some value := by
  by_cases same : a.custom? = some name
  · cases h with
    | set written p _ =>
        obtain rfl := Option.some.inj same
        exact absurd rfl (set p)
    | add written p added =>
        obtain rfl := Option.some.inj same
        rw [Blackboard.add?_eq_none found other] at added
        cases added
  · rw [h.find?_of_ne same, found]

end Action

namespace Program

variable {p : Program} {b b' : Blackboard} {name : String}

/-- An enabled instruction writes a custom value. -/
def Rewrites (p : Program) (b b' : Blackboard) : Prop :=
  ∃ i ∈ p.instructions, i.enabled = true ∧ i.action.Writes b b'

theorem find?_of_rewrites (h : Relation.ReflTransGen p.Rewrites b b')
    (unwritten : ∀ i ∈ p.instructions, i.enabled = true → i.action.custom? ≠ some name) :
    b'.find? name = b.find? name := by
  induction h with
  | refl => rfl
  | tail _ step ih =>
      obtain ⟨i, hi, enabled, writes⟩ := step
      rw [writes.find?_of_ne (unwritten i hi enabled), ih]

theorem find?_of_rewrites_of_not_number (h : Relation.ReflTransGen p.Rewrites b b') {value : Payload}
    (found : b.find? name = some value) (other : (ofPayload? value : Option Single) = none)
    (unset : ∀ i ∈ p.instructions, i.enabled = true → ∀ x, i.action ≠ .setCustom name x) :
    b'.find? name = some value := by
  induction h with
  | refl => exact found
  | tail _ step ih =>
      obtain ⟨i, hi, enabled, writes⟩ := step
      exact writes.find?_of_not_number ih other (unset i hi enabled)

end Program

/-- The second projectile is the first with more in its memo, where nothing was noted, and with a custom table that
the first one's may become. -/
structure Projectile.Retained (custom : Blackboard → Blackboard → Prop) (p q : Projectile) : Prop where
  id : q.id = p.id
  parent : q.parent = p.parent
  birth : q.birth = p.birth
  seed : q.seed = p.seed
  age : q.age = p.age
  memo : ∃ added, q.memo = added ++ p.memo ∧ ∀ e ∈ added, p.memoized? e.1 = none
  custom : custom p.custom q.custom

/-- The second swarm has the projectiles of the first, in the same places, and a generator that has gone on. -/
structure Swarm.Retained (custom : ProjectileId → Blackboard → Blackboard → Prop) (s s' : Swarm) : Prop where
  seed : s'.seed = s.seed
  nextId : s'.nextId = s.nextId
  generator : ∃ n, s'.generator = (fun g : Pcg => g.draw.2)^[n] s.generator
  size : s'.projectiles.size = s.projectiles.size
  projectile : ∀ (i : Nat) (p q : Projectile), s.projectiles[i]? = some p → s'.projectiles[i]? = some q →
    p.Retained (custom p.id) q

namespace Projectile

variable {custom custom' : Blackboard → Blackboard → Prop} {p q : Projectile}

theorem Retained.refl (h : custom p.custom p.custom) : p.Retained custom p where
  id := rfl
  parent := rfl
  birth := rfl
  seed := rfl
  age := rfl
  memo := ⟨[], rfl, nofun⟩
  custom := h

theorem Retained.mono (h : p.Retained custom q) (weaker : custom p.custom q.custom → custom' p.custom q.custom) :
    p.Retained custom' q := { h with custom := weaker h.custom }

theorem Retained.memoize (h : p.Retained custom q) (hash : UInt32) (value : Single) :
    p.Retained custom (q.memoize hash value).2 := by
  cases missing : q.memoized? hash with
  | some old =>
      simp only [Projectile.memoize, missing]
      exact h
  | none =>
      simp only [Projectile.memoize, missing]
      obtain ⟨added, memo, new⟩ := h.memo
      refine { h with memo := ⟨(hash, value) :: added, congrArg _ memo, fun e he => ?_⟩ }
      rcases List.mem_cons.1 he with rfl | he
      · rw [memoized?, memo, List.lookup_append, Option.or_eq_none_iff] at missing
        exact missing.2
      · exact new e he

end Projectile

namespace Swarm

variable {custom custom' : ProjectileId → Blackboard → Blackboard → Prop} {s s' : Swarm} {id : ProjectileId}

theorem Retained.refl (h : ∀ id b, custom id b b) (s : Swarm) : s.Retained custom s where
  seed := rfl
  nextId := rfl
  generator := ⟨0, rfl⟩
  size := rfl
  projectile i p q hp hq := by
    obtain rfl := Option.some.inj (hp.symm.trans hq)
    exact .refl (h p.id p.custom)

theorem Retained.mono (h : s.Retained custom s') (weaker : ∀ id b b', custom id b b' → custom' id b b') :
    s.Retained custom' s' :=
  { h with projectile := fun i p q hp hq => (h.projectile i p q hp hq).mono (weaker p.id _ _) }

theorem Retained.position? (h : s.Retained custom s') (id : ProjectileId) : s'.position? id = s.position? id := by
  refine position?_congr (Array.ext (by simp [h.size]) fun i hi hi' => ?_)
  rw [Array.size_map] at hi hi'
  rw [Array.getElem_map, Array.getElem_map]
  exact (h.projectile i _ _ (Array.getElem?_eq_getElem hi') (Array.getElem?_eq_getElem hi)).id

/-- What is found now is what was found then, with what it may have become. -/
theorem Retained.find? (h : s.Retained custom s') {q : Projectile} (found : s'.find? id = some q) :
    ∃ p, s.find? id = some p ∧ p.Retained (custom id) q := by
  obtain ⟨i, hi, hq⟩ := find?_eq_some_iff.1 found
  rw [h.position?] at hi
  obtain ⟨hlt, hid⟩ := getElem_of_position? hi
  have hp := Array.getElem?_eq_getElem hlt
  refine ⟨s.projectiles[i], (find?_of_position? hi).trans hp, ?_⟩
  have kept := h.projectile i _ q hp hq
  rwa [hid] at kept

section

variable {β : Type} {f : Projectile → β}

/-- What stays the same of every projectile is found again. -/
theorem Retained.map_find? (h : s.Retained custom s') (same : ∀ p q, p.Retained (custom p.id) q → f q = f p)
    (id : ProjectileId) : (s'.find? id).map f = (s.find? id).map f := by
  rw [Swarm.find?, Swarm.find?, h.position?]
  cases s.position? id with
  | none => rfl
  | some i =>
      rw [Option.bind_some, Option.bind_some]
      by_cases hi : i < s.projectiles.size
      · have hp := Array.getElem?_eq_getElem hi
        have hq := Array.getElem?_eq_getElem (Nat.lt_of_lt_of_eq hi h.size.symm)
        rw [hp, hq]
        exact congrArg some (same _ _ (h.projectile i _ _ hp hq))
      · rw [Array.getElem?_eq_none (Nat.not_lt.1 hi), Array.getElem?_eq_none (h.size ▸ Nat.not_lt.1 hi)]

theorem Retained.map_ancestor? (h : s.Retained custom s') (same : ∀ p q, p.Retained (custom p.id) q → f q = f p)
    (id : ProjectileId) (n : Nat) : (s'.ancestor? id n).map f = (s.ancestor? id n).map f := by
  induction n generalizing id with
  | zero => exact h.map_find? same id
  | succ n ih =>
      have parents := h.map_find? (fun _ _ kept => kept.parent) id
      simp only [ancestor?, Option.bind_eq_bind]
      cases hp : s.find? id with
      | none =>
          rw [hp, Option.map_none, Option.map_eq_none_iff] at parents
          rw [parents]
          rfl
      | some p =>
          rw [hp] at parents
          obtain ⟨q, hq, hparent⟩ := Option.map_eq_some_iff.1 parents
          rw [hq, Option.bind_some, Option.bind_some, hparent]
          cases p.parent with
          | none => rfl
          | some parent => exact ih parent

end

theorem Retained.modify (h : s.Retained custom s') {f : Projectile → Projectile}
    (step : ∀ p q, s.find? id = some p → s'.find? id = some q → p.Retained (custom id) q →
      p.Retained (custom id) (f q)) : s.Retained custom (s'.modify id f) := by
  cases hi : s'.position? id with
  | none =>
      rw [modify_of_not_found hi]
      exact h
  | some i =>
      rw [modify_of_position? hi]
      refine { h with size := Array.size_modify.trans h.size, projectile := fun j p q hp hq => ?_ }
      rw [Array.getElem?_modify] at hq
      split at hq
      · rename_i heq
        subst heq
        obtain ⟨q', hq', rfl⟩ := Option.map_eq_some_iff.1 hq
        have found : s'.find? id = some q' := (find?_of_position? hi).trans hq'
        have kept := h.projectile i p q' hp hq'
        have hid : p.id = id := kept.id.symm.trans (id_of_find? found)
        rw [h.position?] at hi
        rw [hid] at kept ⊢
        exact step p q' ((find?_of_position? hi).trans hp) found kept
      · exact h.projectile j p q hp hq

theorem Retained.reseed (h : s.Retained custom s') {g : Pcg}
    (drawn : ∃ n, g = (fun g : Pcg => g.draw.2)^[n] s.generator) :
    s.Retained custom { s' with generator := g } := { h with generator := drawn }

theorem Retained.draw (h : s.Retained custom s') : s.Retained custom s'.draw.2 := by
  obtain ⟨n, drawn⟩ := h.generator
  rw [draw_eq]
  refine h.reseed ⟨n + 1, ?_⟩
  rw [Function.iterate_succ_apply', ← drawn]

theorem keptByDraws_retained (custom : ProjectileId → Blackboard → Blackboard → Prop) (s : Swarm) :
    KeptByDraws (s.Retained custom) where
  fresh _ h := h.draw
  shared s' id operation factor x s'' drawn h := by
    rcases eq_or_modify_of_sharedDraw? drawn with rfl | ⟨owner, hash, -, -, rfl⟩
    · exact h
    · exact h.modify fun p q _ _ hq => hq.memoize hash _

/-- Writes to a custom table outlast what was retained, if they make a table that it may become. -/
theorem keptByWrites_retained {writes : Blackboard → Blackboard → Prop} (id : ProjectileId)
    (step : ∀ p b b', s.find? id = some p → custom id p.custom b → writes b b' → custom id p.custom b') :
    KeptByWrites (s.Retained custom) id writes := by
  intro s' change written h
  refine h.modify fun p q hp hq kept => { kept with custom := ?_ }
  exact step p q.custom _ hp kept.custom (written q hq)

end Swarm

/-- An `addCustom` of what is not a number leaves every custom table. -/
theorem Turn.retained_addCustom (t : Turn) (globals : Blackboard) {i : Instruction} {name : String}
    {delta : Param Single} (action : i.action = .addCustom name delta) {value : Payload}
    (found : (t.swarm.find? t.player.emitter).bind (·.custom.find? name) = some value)
    (other : (ofPayload? value : Option Single) = none) :
    t.swarm.Retained (fun _ b b' => b' = b) (t.execute globals i).2.swarm := by
  have start : t.swarm.Retained (fun _ b b' => b' = b) t.swarm := by
    refine .refl ?_ t.swarm
    exact fun _ _ => rfl
  refine keeps_execute (Swarm.keptByDraws_retained _ _) globals i ?_ start
  refine Swarm.keptByWrites_retained _ fun p b b' hp hb writes => ?_
  subst hb
  rw [hp, Option.bind_some] at found
  rw [action] at writes
  cases writes with
  | add _ _ added =>
      rw [Blackboard.add?_eq_none found other] at added
      cases added

namespace Player

/-- What an update may make of a custom table: that of the emitter is rewritten by enabled instructions. -/
def Revises (p : Player) (id : ProjectileId) (b b' : Blackboard) : Prop :=
  if id = p.emitter then Relation.ReflTransGen p.program.Rewrites b b' else b' = b

theorem revises_refl (p : Player) (id : ProjectileId) (b : Blackboard) : p.Revises id b b := by
  unfold Revises
  split
  · exact .refl
  · rfl

theorem retained_update (p : Player) (dt : Single) (globals : Blackboard) (s : Swarm) :
    s.Retained p.Revises (p.update dt globals s).swarm := by
  refine keeps_update_of_writes (Swarm.keptByDraws_retained _ _) p (fun i hi enabled => ?_) dt globals
    (.refl p.revises_refl s)
  refine Swarm.keptByWrites_retained _ fun q b b' _ revised writes => ?_
  rw [Revises, if_pos rfl] at revised ⊢
  exact revised.tail ⟨i, hi, enabled, writes⟩

/-- The footprint of an update, whatever the player, the time, the globals and the swarm. The seed and the next id
stay, the generator goes on by some draws, and the same projectiles are in the same places. Each has the same id,
emitter, birth, seed and age. Its memo still holds what it held, behind what is new. Its custom table changes only
if the pattern runs on it, only under names that an enabled instruction sets or adds to, and what is not a number
changes only if an enabled instruction sets it: wherever in an update an `addCustom` finds something else than a
number, it leaves all custom tables as they are. -/
theorem update_footprint (p : Player) (dt : Single) (globals : Blackboard) (s : Swarm) :
    s.Retained
      (fun id b b' =>
        (id ≠ p.emitter → b' = b) ∧
        (∀ name, (∀ i ∈ p.program.instructions, i.enabled = true → i.action.custom? ≠ some name) →
          b'.find? name = b.find? name) ∧
        ∀ name value, b.find? name = some value → (ofPayload? value : Option Single) = none →
          (∀ i ∈ p.program.instructions, i.enabled = true → ∀ x, i.action ≠ .setCustom name x) →
          b'.find? name = some value)
      (p.update dt globals s).swarm ∧
    ∀ (t : Turn) (i : Instruction) (name : String) (delta : Param Single) (value : Payload),
      i.action = .addCustom name delta →
      (t.swarm.find? t.player.emitter).bind (·.custom.find? name) = some value →
      (ofPayload? value : Option Single) = none →
      t.swarm.Retained (fun _ b b' => b' = b) (t.execute globals i).2.swarm := by
  refine ⟨(p.retained_update dt globals s).mono fun id b b' revised => ?_, ?_⟩
  · unfold Revises at revised
    split at revised
    · rename_i own
      exact ⟨absurd own, fun name => Program.find?_of_rewrites revised,
        fun name value => Program.find?_of_rewrites_of_not_number revised⟩
    · subst revised
      exact ⟨fun _ => rfl, fun _ _ => rfl, fun _ _ found _ _ => found⟩
  · intro t i name delta value action found other
    exact t.retained_addCustom globals action found other

end Player

end Danmaku
