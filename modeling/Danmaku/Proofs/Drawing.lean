import Danmaku.Proofs.History
import Danmaku.Proofs.Visits

/-! What running a pattern does to a swarm. It draws, afresh or from what is shared, and sets custom values of
its emitter; nothing else in a swarm is changed by a selector, a tree, a shot, an instruction or an update. So
a property of swarms that outlasts these outlasts them all. -/

namespace Danmaku

/-- A property of swarms that outlasts draws. -/
structure Swarm.KeptByDraws (P : Swarm → Prop) : Prop where
  fresh : ∀ s, P s → P s.draw.2
  shared : ∀ s id operation factor x s', s.sharedDraw? id operation factor = some (x, s') → P s → P s'

/-- A property of swarms that outlasts new custom values too. -/
structure Swarm.KeptByUpdates (P : Swarm → Prop) : Prop extends KeptByDraws P where
  custom : ∀ s id (change : Projectile → Blackboard), P s → P (s.modify id fun p => { p with custom := change p })

/-- What an action writes to the custom table of its emitter. -/
inductive Action.Writes : Action → Blackboard → Blackboard → Prop where
  | set (name : String) (p : Param Single) (b : Blackboard) (value : Single) :
      Writes (.setCustom name p) b (b.set name (.float value))
  | add (name : String) (p : Param Single) {b b' : Blackboard} {delta sum : Single}
      (added : b.add? name delta = some (sum, b')) : Writes (.addCustom name p) b b'

/-- A property of swarms that outlasts such writes to the custom table of a projectile. -/
def Swarm.KeptByWrites (P : Swarm → Prop) (id : ProjectileId) (writes : Blackboard → Blackboard → Prop) : Prop :=
  ∀ s (change : Projectile → Blackboard), (∀ p, s.find? id = some p → writes p.custom (change p)) → P s →
    P (s.modify id fun p => { p with custom := change p })

theorem Swarm.KeptByUpdates.writes {P : Swarm → Prop} (kept : KeptByUpdates P) (id : ProjectileId)
    (writes : Blackboard → Blackboard → Prop) : KeptByWrites P id writes :=
  fun s change _ h => kept.custom s id change h

/-- The draw leaves a swarm with the property if it finds one. -/
def Draw.Keeps {α : Type} (P : Swarm → Prop) (m : Draw α) : Prop := ∀ s : Stage, P s.swarm → P (m s).2.swarm

section Draw

variable {P : Swarm → Prop} {α β : Type}

theorem Draw.Keeps.pure (x : α) : Draw.Keeps P (pure x : Draw α) := fun _ h => h

theorem Draw.Keeps.bind {m : Draw α} {f : α → Draw β} (hm : Draw.Keeps P m)
    (hf : ∀ x, Draw.Keeps P (f x)) : Draw.Keeps P (m >>= f) := fun s h => hf (m s).1 (m s).2 (hm s h)

theorem Draw.Keeps.map {m : Draw α} (f : α → β) (hm : Draw.Keeps P m) : Draw.Keeps P (f <$> m) :=
  fun s h => hm s h

theorem Draw.Keeps.note (n : Notice) : Draw.Keeps P (modify (·.note n) : Draw Unit) := fun _ h => h

theorem Draw.Keeps.mapM {f : α → Draw β} (hf : ∀ x, Draw.Keeps P (f x)) (xs : List α) :
    Draw.Keeps P (xs.mapM f) := by
  induction xs with
  | nil =>
      rw [List.mapM_nil]
      exact .pure _
  | cons x xs ih =>
      rw [List.mapM_cons]
      exact (hf x).bind fun _ => ih.bind fun _ => .pure _

variable (kept : Swarm.KeptByDraws P)

include kept

theorem keeps_factor (factor : RandomFactor) (view : Viewpoint) (operation : UInt32) :
    Draw.Keeps P (factor.draw view operation) := by
  intro s h
  unfold RandomFactor.draw
  split
  · cases hid : view.projectile with
    | none => exact kept.fresh s.swarm h
    | some id =>
        simp only [Option.bind_some]
        cases hshared : s.swarm.sharedDraw? id operation factor with
        | none => exact kept.fresh s.swarm h
        | some r => exact kept.shared s.swarm id operation factor r.1 r.2 hshared h
  · exact kept.fresh s.swarm h

theorem keeps_selector (selector : Selector) (view : Viewpoint) (owner : Owner) (operation : UInt32) :
    Draw.Keeps P (selector.draw view owner operation) := by
  intro s h
  change P (selector.source.draw view owner operation s).2.swarm
  cases selector.source with
  | random factor => exact keeps_factor kept factor view operation s h
  | lineage q =>
      simp only [Selector.Source.draw]
      split <;> exact h
  | global name =>
      simp only [Selector.Source.draw]
      split <;> exact h
  | combined => exact h

variable [Blendable α]

omit [Blendable α] in
theorem keeps_select (node : Node α) (view : Viewpoint) (owner : Owner) (operation : UInt32) (i : NodeIndex)
    (w : Tree.Walk) (h : P w.stage.swarm) : P (w.select node view owner operation i).stage.swarm :=
  keeps_selector kept node.selector view owner (Tree.nodeOperation operation i) w.stage h

theorem Tree.Visits.keeps_swarm {t : Tree α} {view : Viewpoint} {owner : Owner} {operation : UInt32} {i : NodeIndex}
    {above : α} {depth : Nat} {w : Walk} {r : α × Walk} (h : t.Visits view owner operation i above depth w r)
    (hw : P w.stage.swarm) : P r.2.stage.swarm :=
  h.keeps (P := fun w => P w.stage.swarm) (fun _ _ h => h) (fun _ _ _ _ h => h) (fun _ h => h)
    (fun w node i _ _ h => keeps_select kept node view owner operation i w h) hw

theorem keeps_visit (t : Tree α) (view : Viewpoint) (owner : Owner) (operation : UInt32) (i : NodeIndex)
    (above : α) (depth : Nat) (w : Tree.Walk) (h : P w.stage.swarm) :
    P (t.visit view owner operation i above depth w).2.stage.swarm :=
  (t.visits_visit view owner operation i above depth w).keeps_swarm kept h

omit kept in
/-- Notices aside, a resolution leaves what its visit left. -/
theorem Tree.swarm_resolveFrom (t : Tree α) (i : NodeIndex) (view : Viewpoint) (owner : Owner) (operation : UInt32)
    (s : Stage) : (t.resolveFrom i view owner operation s).2.swarm =
      (t.visit view owner operation i t.root.default 0 { stage := s }).2.stage.swarm := by
  unfold resolveFrom
  refine Array.foldl_induction (fun _ (s' : Stage) => s'.swarm = _) rfl fun _ _ hs => ?_
  exact hs

theorem keeps_resolveFrom (t : Tree α) (i : NodeIndex) (view : Viewpoint) (owner : Owner)
    (operation : UInt32) : Draw.Keeps P (t.resolveFrom i view owner operation) := by
  intro s h
  rw [Tree.swarm_resolveFrom]
  exact keeps_visit kept t view owner operation i t.root.default 0 { stage := s } h

theorem keeps_param (p : Param α) (view : Viewpoint) (owner : Owner) :
    Draw.Keeps P (p.draw view owner) := fun s h =>
  keeps_resolveFrom kept p.tree .root view owner p.operation s h

omit [Blendable α]

/-- The parameters of a layout step. -/
theorem keeps_step (step : Step Param) (view : Viewpoint) :
    Draw.Keeps P (step.traverse (g := fun α => α) (·.draw view .shot) (·.draw view .shot)
      (·.draw view .shot) : Draw Placing) := by
  cases step with
  | select | selectAll | reset => exact .pure _
  | _ => exact .map _ (keeps_param kept _ view .shot)

theorem keeps_shot (shot : Shot) (view : Viewpoint) : Draw.Keeps P (shot.draw view) := by
  have count : Draw.Keeps P (shot.drawCount view) := by
    refine (keeps_param kept shot.count view .shot).bind fun requested => ?_
    dsimp only
    split
    · exact (Draw.Keeps.note _).bind fun _ => .pure _
    · exact .pure _
  refine count.bind fun count => ?_
  refine (keeps_param kept shot.bullet view .shot).bind fun bullet => ?_
  exact (Draw.Keeps.mapM (fun step => keeps_step kept step view) shot.modifiers).bind fun _ => .pure _

end Draw

namespace Turn

variable {P : Swarm → Prop} {t : Turn} {globals : Blackboard}

theorem keeps_value {α : Type} [Blendable α] (kept : Swarm.KeptByDraws P) (globals : Blackboard) (p : Param α)
    (channel : Channel) (h : P t.swarm) : P (t.value globals p channel).2.swarm := by
  simp only [value, drawing, Ledger.draw]
  split
  · exact h
  · exact keeps_param kept p _ _ { swarm := t.swarm } h

theorem keeps_answerAll (kept : Swarm.KeptByDraws P) (globals : Blackboard) (qs : List Query)
    (h : P t.swarm) : P (t.answerAll globals qs).swarm := by
  induction qs generalizing t with
  | nil => exact h
  | cons q qs ih => exact ih (t := t.answer globals q) (keeps_value kept globals q.2.param q.1 h)

theorem keeps_shoot (kept : Swarm.KeptByDraws P) (globals : Blackboard) (shot : Shot) (h : P t.swarm) :
    P (t.shoot globals shot).swarm :=
  keeps_shot kept shot (t.view globals) { swarm := t.swarm } h

theorem keeps_setCustom {name : String} {p : Param Single}
    (writes : Swarm.KeptByWrites P t.player.emitter (Action.setCustom name p).Writes) (value : Single)
    (h : P t.swarm) : P (t.setCustom name value).swarm :=
  writes t.swarm _ (fun q _ => .set name p q.custom value) h

theorem keeps_addCustom {name : String} {p : Param Single}
    (writes : Swarm.KeptByWrites P t.player.emitter (Action.addCustom name p).Writes) (delta : Single)
    (h : P t.swarm) : P (t.addCustom name delta).swarm := by
  unfold addCustom
  split
  · exact h
  · rename_i q found
    split
    · rename_i sum custom added
      refine writes t.swarm (fun _ => custom) (fun q' hq' => ?_) h
      obtain rfl := Option.some.inj (found.symm.trans hq')
      exact .add name p added
    · exact h

theorem keeps_act (kept : Swarm.KeptByDraws P) (globals : Blackboard) (i : Instruction)
    (writes : Swarm.KeptByWrites P t.player.emitter i.action.Writes) (h : P t.swarm) :
    P (t.act globals i.action i.timing).swarm := by
  have value {α : Type} [Blendable α] (p : Param α) : P (t.value globals p .main).2.swarm :=
    keeps_value kept globals p .main h
  cases ha : i.action with
  | shoot shot => exact keeps_shoot kept globals shot h
  | playAudio cue => exact value cue
  | playVfx vfx => exact value vfx
  | stopVfx vfx => exact value vfx
  | edit e =>
      obtain ⟨effect, hedit⟩ := edit_eq_emit globals t i e ha
      rw [act, hedit]
      exact keeps_answerAll kept globals i.queries h
  | setCustom name p =>
      rw [ha] at writes
      exact keeps_setCustom (t := (t.value globals p .main).2) writes _ (value p)
  | addCustom name p =>
      rw [ha] at writes
      exact keeps_addCustom (t := (t.value globals p .main).2) writes _ (value p)
  | _ => exact h

theorem keeps_execute (kept : Swarm.KeptByDraws P) (globals : Blackboard) (i : Instruction)
    (writes : Swarm.KeptByWrites P t.player.emitter i.action.Writes) (h : P t.swarm) :
    P (t.execute globals i).2.swarm := by
  have act := keeps_act kept globals i writes h
  rw [execute_eq_perform]
  unfold perform
  split
  · rw [(sameStore_wait _ _ _).swarm]
    exact keeps_value kept globals _ .main h
  · rw [(sameStore_beginLoop _ _ _ _).swarm]
    exact keeps_value kept globals _ .main h
  · rw [t.sameStore_endLoop.swarm]
    exact h
  · exact h
  · unfold commandSelf
    split <;> exact h
  · exact act

theorem swarm_follow (u : Turn) (flow : Flow) : (u.follow flow).turn.swarm = u.swarm := by
  cases flow <;> rfl

theorem keeps_round (kept : Swarm.KeptByDraws P) (globals : Blackboard)
    (writes : ∀ i ∈ t.player.program.instructions, i.enabled = true →
      Swarm.KeptByWrites P t.player.emitter i.action.Writes) (h : P t.swarm) :
    P (t.round globals).turn.swarm := by
  unfold round
  split
  · split <;> exact h
  · rename_i i here
    split
    · rename_i enabled
      rw [swarm_follow]
      exact keeps_execute (t := t.count) kept globals i (writes i (List.mem_of_getElem? here) enabled) h
    · exact h

end Turn

namespace Player

variable {P : Swarm → Prop} {s : Swarm}

/-- An update draws, and writes to the custom table of its emitter what its enabled instructions write. -/
theorem keeps_update_of_writes (kept : Swarm.KeptByDraws P) (p : Player)
    (writes : ∀ i ∈ p.program.instructions, i.enabled = true → Swarm.KeptByWrites P p.emitter i.action.Writes)
    (dt : Single) (globals : Blackboard) (h : P s) : P (p.update dt globals s).swarm := by
  by_cases runs : p.Runs dt
  · rw [update_of_runs runs]
    refine (Turn.run_invariant (P := fun t => Turn.SamePattern p t.player ∧ P t.swarm) (fun t ht => ?_) _
      ⟨⟨rfl, rfl, rfl⟩, h⟩).2
    obtain ⟨same, ht⟩ := ht
    refine ⟨same.trans (Turn.rounded_round globals t).pattern_turn, Turn.keeps_round kept globals ?_ ht⟩
    rwa [same.program, same.emitter]
  · rw [update_of_not_runs runs]
    split <;> exact h

/-- An update draws and sets custom values, and leaves all else in a swarm. -/
theorem keeps_update (kept : Swarm.KeptByUpdates P) (p : Player) (dt : Single) (globals : Blackboard) (h : P s) :
    P (p.update dt globals s).swarm :=
  keeps_update_of_writes kept.toKeptByDraws p (fun i _ _ => kept.writes p.emitter i.action.Writes) dt globals h

end Player

end Danmaku
