import Danmaku.Proofs.Births
import Danmaku.Proofs.Reporting
import Danmaku.Proofs.ShotNumbers

/-! What a projectile keeps of the pattern that fired it. A shot is drawn under the clock of its pattern, and the numbers
of this clock go with the volley to the host, which puts them into the births of the projectiles whenever it spawns
them. So what the parameters of a shot read live is what its bullets read of themselves later. Of the shots of the
pattern the bullets count one more, their own. -/

namespace Danmaku

/-- A volley that is fired, and where it comes from. -/
def Event.volley? : Event → Option (Volley × Muzzle)
  | effect (.shoot volley muzzle) => some (volley, muzzle)
  | _ => none

theorem Event.volley?_eq_none {e : Event} (h : e.muzzle? = none) : e.volley? = none := by
  unfold muzzle? at h
  split at h
  · cases h
  · rename_i other
    unfold volley?
    split
    · exact absurd rfl (other _ _)
    · rfl

def Action.shot? : Action → Option Shot
  | shoot shot => some shot
  | _ => none

theorem Action.eq_shoot_of_shot? {a : Action} {shot : Shot} (h : a.shot? = some shot) : a = .shoot shot := by
  unfold shot? at h
  split at h
  · exact congrArg shoot (Option.some.inj h)
  · cases h

namespace Turn

variable {t u : Turn} {globals : Blackboard} {i : Instruction} {shot : Shot}

/-- The shot that is fired next, if the player is at one that is enabled. -/
def shot? (t : Turn) : Option Shot :=
  (t.player.program.instructions[t.player.pointer]?).bind fun i => if i.enabled then i.action.shot? else none

def volley (globals : Blackboard) (t : Turn) (shot : Shot) : Volley :=
  (shot.draw (t.view globals) { swarm := t.swarm }).1

def muzzle (t : Turn) : Muzzle where
  emitter := t.player.emitter
  pattern := t.player.program.id
  slot := t.player.slot
  shotIndex := t.player.shots
  shotTime := t.player.time

/-- The volleys of the update so far, in order. -/
def fired (t : Turn) : List (Volley × Muzzle) := t.events.toList.filterMap Event.volley?

/-- The executions that fire, in order, with their shots. -/
def firings (executed : List (Turn × Instruction)) : List (Turn × Shot) :=
  executed.filterMap fun x => x.2.action.shot?.map (x.1, ·)

theorem shot?_eq_bind (t : Turn) : t.shot? = t.next?.bind (·.action.shot?) := by
  unfold shot? next?
  cases t.player.program.instructions[t.player.pointer]? with
  | none => rfl
  | some i =>
      rw [Option.bind_some, Option.filter_some]
      split <;> rfl

theorem firings_toList (t : Turn) : firings (t.next?.map (t, ·)).toList = (t.shot?.map (t, ·)).toList := by
  rw [shot?_eq_bind]
  cases t.next? with
  | none => rfl
  | some i => cases shoots : i.action.shot? <;> simp [firings, shoots]

theorem shot?_of_here (here : t.player.program.instructions[t.player.pointer]? = some i) :
    t.shot? = if i.enabled then i.action.shot? else none := by
  rw [shot?, here, Option.bind_some]

/-- Events that come with no muzzle fire nothing. -/
theorem fired_of_muzzles {new : Array Event} (events : u.events = t.events ++ new) (muzzles : u.muzzles = t.muzzles) :
    u.fired = t.fired := by
  have none : new.toList.filterMap Event.muzzle? = [] := by
    rw [Turn.muzzles, events, Array.toList_append, List.filterMap_append] at muzzles
    exact List.append_right_eq_self.1 muzzles
  have silent : new.toList.filterMap Event.volley? = [] := by
    rw [List.filterMap_eq_nil_iff] at none ⊢
    exact fun e he => Event.volley?_eq_none (none e he)
  rw [fired, events, Array.toList_append, List.filterMap_append, silent, List.append_nil]
  rfl

theorem muzzles_commandSelf (t : Turn) (command : Command) : (t.commandSelf command).2.muzzles = t.muzzles := by
  cases command with
  | reboot =>
      exact (quiet_note { t with player := t.player.reboot } (.rebooted t.player.program.id t.player.emitter)).muzzles
  | _ => rfl

theorem muzzles_execute (t : Turn) (globals : Blackboard) (other : i.action.shot? = none) :
    (t.execute globals i).2.muzzles = t.muzzles := by
  by_cases self : ∃ command, i.action = .command command .self
  · obtain ⟨command, action⟩ := self
    simp only [execute_eq_perform, perform, action]
    exact muzzles_commandSelf t command
  · have on : i.action.isReset = false := by
      unfold Action.isReset
      split
      · rename_i action
        exact absurd ⟨_, action⟩ self
      · rename_i action
        exact absurd ⟨_, action⟩ self
      · rfl
    refine (quiet_execute t globals i (fun shot action => ?_) on).muzzles
    rw [action] at other
    cases other

theorem fired_execute (t : Turn) (globals : Blackboard) (other : i.action.shot? = none) :
    (t.execute globals i).2.fired = t.fired := by
  obtain ⟨new, n, same⟩ := adds_execute t globals i
  have events : (t.execute globals i).2.events = t.events ++ new := congrArg (·.2.events) (same t.events t.report)
  exact fired_of_muzzles events (muzzles_execute t globals other)

theorem fired_shoot (t : Turn) (globals : Blackboard) (shot : Shot) :
    (t.shoot globals shot).fired = t.fired ++ [(t.volley globals shot, t.muzzle)] := by
  let drawn := shot.draw (t.view globals) { swarm := t.swarm }
  have events : (t.shoot globals shot).events =
      (t.events ++ drawn.2.notices.map Event.notice).push (.effect (.shoot (t.volley globals shot) t.muzzle)) := rfl
  have silent : (t.events ++ drawn.2.notices.map Event.notice).toList.filterMap Event.volley? = t.fired := by
    refine fired_of_muzzles (u := { t with events := t.events ++ drawn.2.notices.map Event.notice }) rfl ?_
    simp [muzzles, List.filterMap_append, Event.muzzle?]
  rw [fired, events, Array.toList_push, List.filterMap_append, silent]
  rfl

theorem fired_follow (u : Turn) (flow : Flow) : (u.follow flow).turn.fired = u.fired := by
  cases flow <;> rfl

/-- A round fires the shot that it is at, with the clock and the swarm that it begins with. -/
theorem fired_round (globals : Blackboard) (t : Turn) :
    (t.round globals).turn.fired =
      t.fired ++ (t.shot?.map fun shot => (t.volley globals shot, t.muzzle)).toList := by
  cases here : t.player.program.instructions[t.player.pointer]? with
  | none =>
      have none : t.shot? = none := by rw [shot?, here, Option.bind_none]
      rw [none, Option.map_none, Option.toList_none, List.append_nil]
      cases opened : t.player.frames with
      | nil =>
          rw [round_of_done here opened]
          rfl
      | cons frame frames =>
          rw [round_of_unterminated here opened]
          have noted := (quiet_note t (.unterminatedLoop t.player.program.id)).muzzles
          exact fired_of_muzzles (u := t.repair frames) Array.push_eq_append noted
  | some i =>
      have found := shot?_of_here here
      cases enabled : i.enabled with
      | false =>
          rw [enabled, if_neg Bool.false_ne_true] at found
          rw [round_of_disabled here enabled, found, Option.map_none, Option.toList_none, List.append_nil]
          rfl
      | true =>
          rw [enabled, if_pos rfl] at found
          rw [round_of_enabled here enabled, fired_follow, found]
          cases shoots : i.action.shot? with
          | none =>
              rw [Option.map_none, Option.toList_none, List.append_nil]
              exact fired_execute t.count globals shoots
          | some shot =>
              simp only [execute_eq_perform, perform, Action.eq_shoot_of_shot? shoots]
              exact fired_shoot t.count globals shot

/-- An update fires what its executions fire. -/
theorem fired_run (globals : Blackboard) (t : Turn) :
    (t.run globals).fired =
      t.fired ++ (firings (t.executions globals)).map fun f => (f.1.volley globals f.2, f.1.muzzle) := by
  refine executions_invariant
    (P := fun done u => u.fired = t.fired ++ (firings done).map fun f => (f.1.volley globals f.2, f.1.muzzle))
    (fun done u told => ?_) t (List.append_nil _).symm
  have first : (u.shot?.map fun shot => (u.volley globals shot, u.muzzle)).toList =
      (u.shot?.map (u, ·)).toList.map fun f => (f.1.volley globals f.2, f.1.muzzle) := by
    cases u.shot? <;> rfl
  have append : firings (done ++ (u.next?.map (u, ·)).toList) = firings done ++ (u.shot?.map (u, ·)).toList := by
    rw [← firings_toList]
    exact List.filterMap_append
  rw [fired_round, told, append, List.map_append, first, List.append_assoc]

end Turn

namespace Swarm

variable {s : Swarm} {parent : Option ProjectileId} {births : List Birth}

/-- The births give one projectile each, in order, behind those that were there. -/
theorem exists_spawnAll (s : Swarm) (parent : Option ProjectileId) (births : List Birth) :
    ∃ born, (s.spawnAll parent births).2.projectiles.toList = s.projectiles.toList ++ born ∧
      (s.spawnAll parent births).1 = born.map (·.id) ∧
      List.Forall₂ (fun birth b => b.parent = parent ∧ b.birth = birth) births born := by
  induction births generalizing s with
  | nil => exact ⟨[], (List.append_nil _).symm, rfl, .nil⟩
  | cons birth births ih =>
      obtain ⟨born, projectiles, ids, births⟩ := ih (s.spawn parent birth).2
      rw [spawn_eq, Array.toList_push, List.append_assoc] at projectiles
      exact ⟨_ :: born, projectiles, congrArg (s.nextId :: ·) ids, .cons ⟨rfl, rfl⟩ births⟩

end Swarm

/-- The projectile is what a bullet that the shot of a turn placed becomes: it comes from the emitter, and its birth has
the numbers of the clock. -/
structure Projectile.Fired (b : Projectile) (t : Turn) (shot : Shot) (spawn : Spawn) : Prop where
  parent : b.parent = some t.player.emitter
  birth : b.birth = {
    origin := ⟨t.player.program.id, shot.id, spawn.bullet.val⟩
    placeInShot := spawn.placeInShot
    heading := spawn.heading
    shotIndex := t.player.shots
    shotTime := t.player.time
    slot := t.player.slot
    patternShots := t.player.shots + 1
    patternTime := t.player.time }

namespace Projectile.Fired

variable {b b' : Projectile} {t : Turn} {shot : Shot} {spawn : Spawn} {q : LineageQuery} {view : Viewpoint} {s : Swarm}

theorem value?_of_bullet (here : q.distance = 0) (runs : view.projectile = some b.id) (found : s.find? b.id = some b') :
    q.value? .bullet view s = some (q.ofProjectile b') := by
  have line : s.ancestor? b.id q.distance.toNat = some b' := by
    rw [here]
    exact found
  rw [LineageQuery.value?, if_neg (fun h => h.2 rfl), runs, Option.bind_some, line]
  rfl

theorem value?_of_shot (globals : Blackboard) (here : q.distance = 0) {x : Single}
    (shown : q.ofClock? t.player.clock = some x) (s : Swarm) : q.value? .shot (t.view globals) s = some x := by
  have clock : (t.view globals).clock = some t.player.clock := rfl
  rw [LineageQuery.value?, if_pos ⟨here, nofun⟩, clock, Option.bind_some, shown]
  rfl

/-- The clock shows what the projectile has stored. -/
theorem ofClock?_eq (h : b.Fired t shot spawn) (same : b'.birth = b.birth)
    (facet : q.facet ∈ [.shotIndex, .shotTime, .slot, .patternTime]) :
    q.ofClock? t.player.clock = some (q.ofProjectile b') := by
  simp only [List.mem_cons, List.not_mem_nil, or_false] at facet
  rcases facet with facet | facet | facet | facet <;>
    simp only [LineageQuery.ofClock?, LineageQuery.ofProjectile, facet, same, h.birth, Player.clock]

/-- The number of shots is the one that the clock does not share. -/
theorem patternShots_eq (h : b.Fired t shot spawn) (same : b'.birth = b.birth) :
    b'.birth.patternShots = t.player.shots + 1 := by
  rw [same, h.birth]

end Projectile.Fired

namespace Turn

variable {t : Turn} {shot : Shot} {volley : Volley} {host : Swarm}

/-- The bullets of a volley become one projectile each, in order. -/
theorem exists_spawnVolley (t : Turn) (volley : Volley) (same : volley.shot = shot.id) (host : Swarm) :
    ∃ born, (host.spawnVolley volley t.muzzle).2.projectiles.toList = host.projectiles.toList ++ born ∧
      (host.spawnVolley volley t.muzzle).1 = born.map (·.id) ∧
      List.Forall₂ (fun spawn b => b.Fired t shot spawn) volley.spawns born := by
  obtain ⟨born, projectiles, ids, births⟩ :=
    host.exists_spawnAll (some t.player.emitter) (volley.spawns.map (t.muzzle.birth volley.shot))
  refine ⟨born, projectiles, ids, (List.forall₂_map_left_iff.1 births).imp fun spawn b ⟨parent, birth⟩ => ?_⟩
  refine ⟨parent, birth.trans ?_⟩
  rw [same]
  rfl

/-- Where the ids ascend and do not run out, a volley leaves a later swarm. -/
theorem later_spawnVolley (t : Turn) (volley : Volley) (ordered : host.Ordered) (below : host.Below)
    (room : host.nextId.val.toNat + volley.spawns.length < 2 ^ 32) :
    host.Later volley.spawns.length (host.spawnVolley volley t.muzzle).2 := by
  have born := Swarm.Reaches.spawnVolley (.refl : host.Reaches 0 host) volley t.muzzle
  rw [Nat.zero_add] at born
  exact born.later ordered below room

theorem find?_of_born {born : List Projectile} {b : Projectile}
    (ordered : (host.spawnVolley volley t.muzzle).2.Ordered)
    (projectiles : (host.spawnVolley volley t.muzzle).2.projectiles.toList = host.projectiles.toList ++ born)
    (hb : b ∈ born) : (host.spawnVolley volley t.muzzle).2.find? b.id = some b := by
  refine ordered.find?_eq_some_iff.2 ⟨?_, rfl⟩
  rw [← Array.mem_toList_iff, projectiles]
  exact List.mem_append_right _ hb

end Turn

namespace Player

/-- The turns at which an update fires, in order, with their shots. -/
def firings (p : Player) (dt : Single) (globals : Blackboard) (s : Swarm) : List (Turn × Shot) :=
  Turn.firings (p.executions dt globals s)

theorem shot?_of_mem_firings {p : Player} {dt : Single} {globals : Blackboard} {s : Swarm} {t : Turn} {shot : Shot}
    (h : (t, shot) ∈ p.firings dt globals s) : t.shot? = some shot := by
  obtain ⟨⟨u, i⟩, here, fires⟩ := List.mem_filterMap.1 h
  obtain ⟨_, shoots, same⟩ := Option.map_eq_some_iff.1 fires
  obtain ⟨rfl, rfl⟩ := Prod.mk.inj same
  rw [Turn.shot?_eq_bind, next?_of_mem_executions here]
  exact shoots

theorem fired_update (p : Player) (dt : Single) (globals : Blackboard) (s : Swarm) :
    (p.update dt globals s).fired =
      (p.firings dt globals s).map fun f => (f.1.volley globals f.2, f.1.muzzle) := by
  unfold firings executions
  split
  · rename_i runs
    rw [update_of_runs runs, Turn.fired_run]
    rfl
  · rename_i idle
    rw [update_of_not_runs idle]
    split <;> rfl

/-- Live numbers and stored ones agree, for every player and every update. The volleys that an update fires are those of
the rounds that are at an enabled shot, in order, drawn under the clock of the pattern there. Into whatever swarm the
host spawns such a volley, and whenever, its bullets become one projectile each, in order, from the emitter, with the
origin of program, shot and bullet. Where the ids ascend and do not run out each is found by its id, and whatever comes
to pass in the swarm, what its id finds later has the emitter and the birth that it was born with. A parameter of the
shot that asks for the order or the time of the shot, or for the place or the time of the pattern, has read the number
that a parameter of the bullet reads wherever the projectile lives. For the shots of the pattern the shot has read the
count of the shots before, and the projectile has one more. -/
theorem live_and_stored_agree (p : Player) (dt : Single) (globals : Blackboard) (s : Swarm) :
    (p.update dt globals s).fired =
      (p.firings dt globals s).map (fun f => (f.1.volley globals f.2, f.1.muzzle)) ∧
    ∀ t shot, (t, shot) ∈ p.firings dt globals s → t.shot? = some shot ∧
      ∀ (host : Swarm), let spawned := host.spawnVolley (t.volley globals shot) t.muzzle
        ∃ born : List Projectile,
          spawned.2.projectiles.toList = host.projectiles.toList ++ born ∧ spawned.1 = born.map (·.id) ∧
          List.Forall₂ (fun spawn b => b.Fired t shot spawn) (t.volley globals shot).spawns born ∧
          (host.Ordered → host.Below → host.nextId.val.toNat + born.length < 2 ^ 32 →
            ∀ b ∈ born, spawned.2.find? b.id = some b) ∧
          (host.Ordered → host.Below → ∀ (n : Nat) (there : Swarm), spawned.2.Reaches n there →
            host.nextId.val.toNat + born.length + n < 2 ^ 32 → ∀ b ∈ born, ∀ b', there.find? b.id = some b' →
              b'.parent = b.parent ∧ b'.birth = b.birth) ∧
          ∀ b ∈ born, ∀ (view : Viewpoint) (there : Swarm) (b' : Projectile), view.projectile = some b.id →
            there.find? b.id = some b' → b'.birth = b.birth → ∀ (q : LineageQuery) (live : Swarm), q.distance = 0 →
              (q.facet ∈ [.shotIndex, .shotTime, .slot, .patternTime] →
                ∃ x, q.value? .shot (t.view globals) live = some x ∧ q.value? .bullet view there = some x) ∧
              (q.facet = .patternShots →
                q.value? .shot (t.view globals) live = some (q.cycle (.ofNat t.player.shots.toNat)) ∧
                q.value? .bullet view there = some (q.cycle (.ofNat b'.birth.patternShots.toNat)) ∧
                b'.birth.patternShots = t.player.shots + 1 ∧
                (t.player.shots.toNat + 1 < 2 ^ 32 → b'.birth.patternShots.toNat = t.player.shots.toNat + 1)) := by
  refine ⟨p.fired_update dt globals s, fun t shot fires => ⟨shot?_of_mem_firings fires, fun host => ?_⟩⟩
  obtain ⟨born, projectiles, ids, fired⟩ := t.exists_spawnVolley (t.volley globals shot) rfl host
  have later (ordered : host.Ordered) (below : host.Below) :=
    t.later_spawnVolley (t.volley globals shot) ordered below
  rw [fired.length_eq] at later
  refine ⟨born, projectiles, ids, fired, fun ordered below room b hb => ?_, ?_, ?_⟩
  · exact Turn.find?_of_born (later ordered below room).ordered projectiles hb
  · intro ordered below n there after room b hb b' found
    have spawned := later ordered below (by omega)
    have first := Turn.find?_of_born spawned.ordered projectiles hb
    have rest := after.later spawned.ordered spawned.below (by rw [spawned.nextId]; exact room)
    exact rest.birth_eq spawned.ordered spawned.below first found
  · intro b hb view there b' runs found same q live here
    obtain ⟨k, hk, rfl⟩ := List.getElem_of_mem hb
    have stored := fired.get (fired.length_eq ▸ hk) hk
    have bullet := Projectile.Fired.value?_of_bullet here runs found
    refine ⟨fun facet => ⟨_, ?_, bullet⟩, fun facet => ⟨?_, ?_, stored.patternShots_eq same, fun few => ?_⟩⟩
    · exact Projectile.Fired.value?_of_shot globals here (stored.ofClock?_eq same facet) live
    · refine Projectile.Fired.value?_of_shot globals here ?_ live
      rw [LineageQuery.ofClock?, facet]
      rfl
    · rw [bullet, LineageQuery.ofProjectile, facet]
    · rw [stored.patternShots_eq same, UInt32.toNat_add, UInt32.toNat_one]
      exact Nat.mod_eq_of_lt few

/-- A shot of two bullets. -/
def twoBullets : Shot := .ofCount 5 2 ⟨7⟩

/-- In a swarm with a root the bullets become the second and the third projectile. What the third has stored of the time
of its shot is what the shot has read, and it stays when the second is gone and time has passed. -/
theorem two_bullets_agree :
    let p := ofProgram { id := 1, instructions := [.shoot twoBullets] } ⟨1⟩ 3
    let t := p.begin 0.5 (.ofSeed 0)
    let host := ((Swarm.ofSeed 3).spawnRoot {}).2
    let spawned := host.spawnVolley (t.volley {} twoBullets) t.muzzle
    let there := (spawned.2.despawn ⟨2⟩).2.advance 1
    (t, twoBullets) ∈ p.firings 0.5 {} (.ofSeed 0) ∧ spawned.1 = [⟨2⟩, ⟨3⟩] ∧
    ∃ b, spawned.2.find? ⟨3⟩ = some b ∧ b.parent = some ⟨1⟩ ∧
      (∃ x, ({ facet := .shotTime } : LineageQuery).value? .shot (t.view {}) host = some x ∧
        ({ facet := .shotTime } : LineageQuery).value? .bullet { projectile := some ⟨3⟩ } spawned.2 = some x) ∧
      b.birth.patternShots.toNat = t.player.shots.toNat + 1 ∧
      ∃ b', there.find? ⟨3⟩ = some b' ∧ b'.parent = b.parent ∧ b'.birth = b.birth := by
  intro p t host spawned there
  have fires : (t, twoBullets) ∈ p.firings 0.5 {} (.ofSeed 0) :=
    List.mem_filterMap.2 ⟨(t, .shoot twoBullets), mem_executions_of_next? (by decide +kernel) rfl, rfl⟩
  have two : spawned.1 = [⟨2⟩, ⟨3⟩] := by decide +kernel
  have next : host.nextId.val.toNat = 2 := by decide +kernel
  obtain ⟨born, projectiles, ids, fired, found, stays, agree⟩ :=
    ((live_and_stored_agree p 0.5 {} (.ofSeed 0)).2 t twoBullets fires).2 host
  obtain ⟨first, born, rfl, -, ids⟩ := List.map_eq_cons_iff.1 (ids.symm.trans two)
  obtain ⟨b, born, rfl, hid, ids⟩ := List.map_eq_cons_iff.1 ids
  obtain rfl := List.map_eq_nil_iff.1 ids
  have hb : b ∈ [first, b] := List.mem_cons_of_mem _ List.mem_cons_self
  have ordered : host.Ordered := List.pairwise_singleton _ _
  have below : host.Below :=
    Swarm.Below.spawn (fun q hq => absurd hq (Array.not_mem_empty q)) (by decide +kernel) none _
  have room : host.nextId.val.toNat + [first, b].length < 2 ^ 32 := by
    rw [next]
    exact Nat.lt_of_lt_of_le (Nat.lt_succ_self 4) (by decide)
  have here := found ordered below room b hb
  rw [hid] at here
  obtain ⟨time, -⟩ := agree b hb { projectile := some ⟨3⟩ } spawned.2 b (by rw [hid]) (by rw [hid]; exact here) rfl
    { facet := .shotTime } host rfl
  obtain ⟨-, shots⟩ := agree b hb { projectile := some ⟨3⟩ } spawned.2 b (by rw [hid]) (by rw [hid]; exact here) rfl
    { facet := .patternShots } host rfl
  obtain ⟨-, -, -, few⟩ := shots rfl
  have second : 1 < [first, b].length := Nat.lt_succ_self 1
  have placed := fired.get (fired.length_eq ▸ second) second
  have reached : spawned.2.Reaches 0 there := .advance (.despawn .refl ⟨2⟩) 1
  have lives : (there.find? ⟨3⟩).isSome = true := by decide +kernel
  obtain ⟨b', found'⟩ := Option.isSome_iff_exists.1 lives
  have same := stays ordered below 0 there reached room b hb b' (by rw [hid]; exact found')
  exact ⟨fires, two, b, here, placed.parent, time (by decide), few (by decide), b', found', same⟩

end Player

end Danmaku
