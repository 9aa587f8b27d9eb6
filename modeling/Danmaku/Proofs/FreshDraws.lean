import Danmaku.Proofs.Commuting
import Danmaku.Proofs.Footprint
import Danmaku.Proofs.SharedKeys
import Danmaku.Proofs.VisitBounds

/-! How often a resolution draws afresh. It draws once for each node that it enters and that has a random factor to
draw, unless the factor is shared and finds its ancestor. Nothing but draws happens to the swarm, and what is refused,
fixed, missing or childless is no draw. -/

namespace Danmaku

/-- The second swarm is the first after so many draws afresh, with shared draws between them. -/
inductive Swarm.Draws (s : Swarm) : Nat → Swarm → Prop where
  | none : Draws s 0 s
  | fresh {n : Nat} {s' : Swarm} (before : Draws s n s') : Draws s (n + 1) s'.draw.2
  | shared {n : Nat} {s' s'' : Swarm} {id : ProjectileId} {operation : UInt32} {factor : RandomFactor} {x : Single}
      (before : Draws s n s') (drawn : s'.sharedDraw? id operation factor = some (x, s'')) : Draws s n s''

/-- A factor is drawn afresh if it is not shared, or if there is no ancestor to own the value. -/
def RandomFactor.drawsAfresh (factor : RandomFactor) (view : Viewpoint) (s : Swarm) : Bool :=
  !factor.shared || (view.projectile.bind (s.ancestor? · factor.distance.toNat)).isNone

/-- To enter the node takes a draw afresh. -/
def Tree.drawsAfresh {α : Type} (t : Tree α) (view : Viewpoint) (s : Swarm) (i : NodeIndex) : Bool :=
  ((t.node? i).bind Node.factor?).any (·.drawsAfresh view s)

namespace Swarm

variable {s s' : Swarm} {id : ProjectileId} {operation : UInt32} {factor : RandomFactor} {x : Single} {n : Nat}

theorem Draws.keeps {P : Swarm → Prop} (kept : KeptByDraws P) (h : s.Draws n s') (hs : P s) : P s' := by
  induction h with
  | none => exact hs
  | fresh _ ih => exact kept.fresh _ ih
  | shared _ drawn ih => exact kept.shared _ _ _ _ _ _ drawn ih

theorem generator_of_sharedDraw? (drawn : s.sharedDraw? id operation factor = some (x, s')) :
    s'.generator = s.generator := by
  rcases eq_or_modify_of_sharedDraw? drawn with rfl | ⟨owner, hash, -, -, rfl⟩
  · rfl
  · unfold modify
    split <;> rfl

/-- Only what is drawn afresh moves the generator. -/
theorem Draws.generator (h : s.Draws n s') : s'.generator = (fun g : Pcg => g.draw.2)^[n] s.generator := by
  induction h with
  | none => rfl
  | fresh _ ih =>
      rw [Function.iterate_succ_apply', ← ih]
      rfl
  | shared _ drawn ih => rw [generator_of_sharedDraw? drawn, ih]

end Swarm

namespace SharedKey

/-- There is no key for want of an ancestor only. -/
theorem isNone_of? (s : Swarm) (id : ProjectileId) (operation : UInt32) (factor : RandomFactor) :
    (of? s id operation factor).isNone = (s.ancestor? id factor.distance.toNat).isNone := by
  rw [of?_eq, Option.isNone_map]

end SharedKey

namespace RandomFactor

variable {factor : RandomFactor} {view : Viewpoint} {s s' : Swarm} {operation : UInt32}

theorem isNone_sharedDraw? (s : Swarm) (id : ProjectileId) (operation : UInt32) (factor : RandomFactor) :
    (s.sharedDraw? id operation factor).isNone = (s.ancestor? id factor.distance.toNat).isNone := by
  rw [← SharedKey.isNone_of? s id operation factor]
  cases hkey : SharedKey.of? s id operation factor with
  | none =>
      rw [Swarm.sharedDraw?_of_none hkey]
      rfl
  | some key =>
      obtain ⟨⟨owner, howner⟩, -⟩ := SharedKey.of?_eq_some hkey
      rw [Swarm.sharedDraw?_of_key hkey howner]
      split <;> rfl

theorem drawsAfresh_of_retained {custom : ProjectileId → Blackboard → Blackboard → Prop}
    (h : s.Retained custom s') : factor.drawsAfresh view s' = factor.drawsAfresh view s := by
  unfold drawsAfresh
  cases view.projectile with
  | none => rfl
  | some id =>
      have ids := h.map_ancestor? (fun _ _ kept => kept.id) id factor.distance.toNat
      have missing := congrArg Option.isNone ids
      rw [Option.isNone_map, Option.isNone_map] at missing
      rw [Option.bind_some, Option.bind_some, missing]

/-- A factor is one draw, afresh or shared. -/
theorem draws_draw {n : Nat} {s : Swarm} {stage : Stage} (h : s.Draws n stage.swarm) :
    s.Draws (n + (factor.drawsAfresh view stage.swarm).toNat) (factor.draw view operation stage).2.swarm := by
  unfold draw drawsAfresh
  cases shared : factor.shared with
  | false => exact h.fresh
  | true =>
      cases view.projectile with
      | none => exact h.fresh
      | some id =>
          simp only [Option.bind_some, Bool.not_true, Bool.false_or, if_true]
          rw [← isNone_sharedDraw? stage.swarm id operation factor]
          cases drawn : stage.swarm.sharedDraw? id operation factor with
          | none => exact h.fresh
          | some r => exact h.shared drawn

end RandomFactor

/-- Draws change no custom table. -/
theorem Swarm.Draws.retained {s s' : Swarm} {n : Nat} (h : s.Draws n s') : s.Retained (fun _ b b' => b' = b) s' := by
  refine h.keeps (keptByDraws_retained _ s) (.refl ?_ s)
  exact fun _ _ => rfl

namespace Tree

variable {α : Type} {t : Tree α} {view : Viewpoint} {owner : Owner} {operation : UInt32} {i : NodeIndex}
  {node : Node α} {s : Swarm}

/-- A selector is a draw if its source is random. -/
theorem draws_selection {n : Nat} {stage : Stage} (h : s.Draws n stage.swarm) (selects : node.mode.selects = true) :
    s.Draws (n + (node.factor?.any (·.drawsAfresh view stage.swarm)).toNat)
      (selection node view owner operation i stage).2.swarm := by
  change s.Draws _ (node.selector.source.draw view owner (nodeOperation operation i) stage).2.swarm
  cases source : node.selector.source with
  | random factor =>
      rw [Node.factor?_of_selects selects source]
      exact RandomFactor.draws_draw h
  | lineage q =>
      rw [Node.factor?, source]
      dsimp only [Selector.Source.draw]
      split <;> exact h
  | global name =>
      rw [Node.factor?, source]
      dsimp only [Selector.Source.draw]
      split <;> exact h
  | combined =>
      rw [Node.factor?, source]
      exact h

/-- The walk has drawn afresh once for each node that takes it, from the swarm on. -/
def Walk.Drawn (t : Tree α) (view : Viewpoint) (s : Swarm) (w : Walk) : Prop :=
  s.Draws (w.visited.countP (t.drawsAfresh view s)) w.stage.swarm

theorem Walk.Drawn.enter {w : Walk} (h : w.Drawn t view s) (found : t.node? i = some node)
    (selects : node.mode.selects = false) : (w.enter i).Drawn t view s := by
  have idle : t.drawsAfresh view s i = false := by
    rw [drawsAfresh, found, Option.bind_some, Node.factor?, selects]
    split <;> rfl
  rw [Drawn, Walk.enter, Array.countP_push, if_neg (by simp [idle])]
  exact h

theorem Walk.Drawn.select {w : Walk} (h : w.Drawn t view s) (found : t.node? i = some node)
    (selects : node.mode.selects = true) : (w.select node view owner operation i).Drawn t view s := by
  -- Nodes are counted by the swarm of the start, where the same ancestors lived.
  have here : node.factor?.any (·.drawsAfresh view w.stage.swarm) = t.drawsAfresh view s i := by
    rw [drawsAfresh, found, Option.bind_some]
    cases node.factor? with
    | none => rfl
    | some factor => exact RandomFactor.drawsAfresh_of_retained h.retained
  have drawn : s.Draws _ (selection node view owner operation i w.stage).2.swarm := draws_selection h selects
  rw [here] at drawn
  rw [Drawn, Walk.select, Walk.enter, Array.countP_push]
  cases afresh : t.drawsAfresh view s i <;> rwa [afresh] at drawn

variable [Blendable α] {above : α} {depth : Nat} {w : Walk} {r : α × Walk}

theorem Visits.drawn (h : t.Visits view owner operation i above depth w r) (hw : w.Drawn t view s) :
    r.2.Drawn t view s := by
  induction h with
  | dangling | refused => exact hw
  | fixed found _ mode | reference found _ mode | unreferred found _ mode | childless found _ mode =>
      exact hw.enter found (by rw [mode]; rfl)
  | blend found _ mode _ ih => exact ih (hw.select found (by rw [mode]; rfl))
  | between found _ mode _ _ ih ih' => exact ih' (ih (hw.select found (by rw [mode]; rfl)))
  | gradient found _ mode | unshaded found _ mode => exact hw.select found (by rw [mode]; rfl)

/-- Where no selector is drawn the stage stays. -/
theorem Visits.stage (h : t.Visits view owner operation i above depth w r)
    (idle : ∀ node, t.node? i = some node → w.Admits i depth → node.mode.selects = false) : r.2.stage = w.stage := by
  cases h with
  | blend found admits mode | between found admits mode | gradient found admits mode | unshaded found admits mode =>
      have selects := idle _ found admits
      rw [mode] at selects
      cases selects
  | _ => rfl

/-- A resolution changes a swarm by draws alone: it moves the generator and adds to memos what they do not hold, and
leaves the rest as it is. It draws afresh as often as it enters a node that has a random factor to draw which is not
shared or misses its ancestor. A visit that is refused, or enters a node that has no selector to draw, draws
nothing. -/
theorem resolveFrom_draws (t : Tree α) (i : NodeIndex) (view : Viewpoint) (owner : Owner) (operation : UInt32)
    (s : Stage) :
    let r := t.resolveFrom i view owner operation s
    let afresh := r.1.visited.countP (t.drawsAfresh view s.swarm)
    s.swarm.Draws afresh r.2.swarm ∧ s.swarm.Retained (fun _ b b' => b' = b) r.2.swarm ∧
    r.2.swarm.generator = (fun g : Pcg => g.draw.2)^[afresh] s.swarm.generator ∧ afresh ≤ 4096 ∧
    ∀ j above depth w, (∀ node, t.node? j = some node → w.Admits j depth → node.mode.selects = false) →
      (t.visit view owner operation j above depth w).2.stage = w.stage := by
  intro r afresh
  have h := t.visits_visit view owner operation i t.root.default 0 { stage := s }
  have draws : s.swarm.Draws afresh r.2.swarm := by
    rw [swarm_resolveFrom]
    exact h.drawn .none
  have afresh_le : afresh ≤ 4096 := Nat.le_trans Array.countP_le_size (h.visited_le (Nat.zero_le maxVisits))
  exact ⟨draws, draws.retained, draws.generator, afresh_le,
    fun j above depth w => (t.visits_visit view owner operation j above depth w).stage⟩

/-- A number that is to come from a gradient. -/
def shadedNumber : Tree Single := .ofRoot { mode := .gradient default, default := 5 }

/-- That there are no gradients of numbers is found out with a selector in hand, so this fallback is a draw. -/
theorem unsupported_gradient_draws :
    let s : Stage := { swarm := .ofSeed 1 }
    let r := shadedNumber.resolveFrom .root {} .bullet 0 s
    r.1.value = 5 ∧ r.1.fallbacks = #[.unsupportedGradient .root] ∧
    r.2.swarm.generator = s.swarm.generator.draw.2 ∧ r.2.swarm.generator ≠ s.swarm.generator := by
  intro s r
  have admits : ({ stage := s } : Walk).Admits .root 0 := ⟨nofun, Nat.zero_le maxDepth, by decide⟩
  have visited : shadedNumber.visit {} .bullet 0 .root shadedNumber.root.default 0 { stage := s } = _ :=
    (Visits.unshaded rfl admits rfl rfl).eq_visit
  have moved : r.2.swarm = s.swarm.draw.2 := by
    rw [swarm_resolveFrom, visited]
    rfl
  refine ⟨?_, ?_, by rw [moved, Swarm.draw_eq], ?_⟩
  · change (shadedNumber.visit _ _ _ _ _ _ _).1 = _
    rw [visited]
    rfl
  · change (shadedNumber.visit _ _ _ _ _ _ _).2.fallbacks = _
    rw [visited]
    rfl
  · rw [moved]
    decide +kernel

end Tree

end Danmaku
