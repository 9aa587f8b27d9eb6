import Danmaku.Proofs.PlainResolution

/-! What a visit comes to. A visit is refused, or it enters its node, and then the mode of the node says what it reads,
whether it draws its selector and which visits it asks for. This is said once, as a relation with a constructor for
each outcome, so that what every visit keeps or costs is proved along it. -/

namespace Danmaku.Tree

variable {α : Type} [Blendable α]

/-- What a visit of a node comes to, with the default above it, at a depth and on a walk: a value and the walk after
it. -/
inductive Visits (t : Tree α) (view : Viewpoint) (owner : Owner) (operation : UInt32) :
    NodeIndex → α → Nat → Walk → α × Walk → Prop where
  | dangling {i : NodeIndex} {above : α} {depth : Nat} {w : Walk} (missing : t.node? i = none) :
      Visits t view owner operation i above depth w (above, w.fallBack (.danglingIndex i))
  | refused {i : NodeIndex} {node : Node α} {above : α} {depth : Nat} {w : Walk}
      (found : t.node? i = some node) (closed : ¬w.Admits i depth) :
      Visits t view owner operation i above depth w (node.default, w.fallBack (w.refusal i depth))
  | fixed {i : NodeIndex} {node : Node α} {above : α} {depth : Nat} {w : Walk}
      (found : t.node? i = some node) (admits : w.Admits i depth) (mode : node.mode = .fixed) :
      Visits t view owner operation i above depth w (node.default, (w.enter i).leave)
  | reference {i : NodeIndex} {node : Node α} {above : α} {depth : Nat} {w : Walk} {r : Reference} {value : α}
      (found : t.node? i = some node) (admits : w.Admits i depth) (mode : node.mode = .reference r)
      (referred : referred? r view w.stage.swarm = some value) :
      Visits t view owner operation i above depth w (value, (w.enter i).leave)
  | unreferred {i : NodeIndex} {node : Node α} {above : α} {depth : Nat} {w : Walk} {r : Reference}
      (found : t.node? i = some node) (admits : w.Admits i depth) (mode : node.mode = .reference r)
      (missing : (referred? r view w.stage.swarm : Option α) = none) :
      Visits t view owner operation i above depth w
        (node.default, ((w.enter i).fallBack (.missingReference i r.name)).leave)
  | childless {i : NodeIndex} {node : Node α} {above : α} {depth : Nat} {w : Walk}
      (found : t.node? i = some node) (admits : w.Admits i depth) (mode : node.mode = .blend []) :
      Visits t view owner operation i above depth w (node.default, ((w.enter i).fallBack (.emptyBlend i)).leave)
  | blend {i : NodeIndex} {node : Node α} {above : α} {depth : Nat} {w : Walk} {first : NodeIndex}
      {others : List NodeIndex} {r : α × Walk} (found : t.node? i = some node) (admits : w.Admits i depth)
      (mode : node.mode = .blend (first :: others))
      (chosen : Visits t view owner operation
        (t.pickChild first others (selection node view owner operation i w.stage).1) node.default (depth + 1)
        (w.select node view owner operation i) r) :
      Visits t view owner operation i above depth w (r.1, r.2.leave)
  | between {i : NodeIndex} {node : Node α} {above : α} {depth : Nat} {w : Walk} {source target : NodeIndex}
      {x y : α × Walk} (found : t.node? i = some node) (admits : w.Admits i depth)
      (mode : node.mode = .between source target)
      (first : Visits t view owner operation source node.default (depth + 1) (w.select node view owner operation i) x)
      (second : Visits t view owner operation target node.default (depth + 1) x.2 y) :
      Visits t view owner operation i above depth w
        (Blendable.blend x.1 y.1 (selection node view owner operation i w.stage).1, y.2.leave)
  | gradient {i : NodeIndex} {node : Node α} {above : α} {depth : Nat} {w : Walk} {gradient : Gradient} {value : α}
      (found : t.node? i = some node) (admits : w.Admits i depth) (mode : node.mode = .gradient gradient)
      (sampled : ofGradient? gradient (selection node view owner operation i w.stage).1 = some value) :
      Visits t view owner operation i above depth w (value, (w.select node view owner operation i).leave)
  | unshaded {i : NodeIndex} {node : Node α} {above : α} {depth : Nat} {w : Walk} {gradient : Gradient}
      (found : t.node? i = some node) (admits : w.Admits i depth) (mode : node.mode = .gradient gradient)
      (unsupported : (ofGradient? gradient (selection node view owner operation i w.stage).1 : Option α) = none) :
      Visits t view owner operation i above depth w
        (node.default, ((w.select node view owner operation i).fallBack (.unsupportedGradient i)).leave)

/-- A visit comes to what the relation says. -/
theorem visits_visit (t : Tree α) (view : Viewpoint) (owner : Owner) (operation : UInt32) (i : NodeIndex) (above : α)
    (depth : Nat) (w : Walk) :
    t.Visits view owner operation i above depth w (t.visit view owner operation i above depth w) := by
  cases found : t.node? i with
  | none =>
      rw [visit_of_dangling found]
      exact .dangling found
  | some node =>
      by_cases admits : w.Admits i depth
      · have hdepth := admits.depth_le
        rw [visit_of_admits found admits]
        cases mode : node.mode with
        | fixed => exact .fixed found admits mode
        | reference r =>
            dsimp only
            cases referred : (referred? r view w.stage.swarm : Option α) with
            | none => exact .unreferred found admits mode referred
            | some value => exact .reference found admits mode referred
        | gradient gradient =>
            dsimp only
            cases sampled : (ofGradient? gradient (selection node view owner operation i w.stage).1 : Option α) with
            | none => exact .unshaded found admits mode sampled
            | some value => exact .gradient found admits mode sampled
        | blend children =>
            cases children with
            | nil => exact .childless found admits mode
            | cons first others => exact .blend found admits mode (visits_visit t view owner operation ..)
        | between source target =>
            exact .between found admits mode (visits_visit t view owner operation ..)
              (visits_visit t view owner operation ..)
      · rw [visit_of_refused above found admits]
        exact .refused found admits
termination_by maxDepth + 1 - depth

variable {t : Tree α} {view : Viewpoint} {owner : Owner} {operation : UInt32} {i : NodeIndex} {above : α}
  {depth : Nat} {w : Walk} {r : α × Walk}

/-- It comes to nothing else. -/
theorem Visits.eq_visit (h : t.Visits view owner operation i above depth w r) :
    t.visit view owner operation i above depth w = r := by
  induction h with
  | dangling missing => exact visit_of_dangling missing
  | refused found closed => exact visit_of_refused _ found closed
  | fixed found admits mode | childless found admits mode => rw [visit_of_admits found admits, mode]
  | reference found admits mode known | unreferred found admits mode known | gradient found admits mode known
  | unshaded found admits mode known =>
      rw [visit_of_admits found admits, mode]
      dsimp only
      rw [known]
  | blend found admits mode _ ih =>
      rw [visit_of_admits found admits, mode]
      dsimp only
      rw [ih]
  | between found admits mode _ _ ih ih' =>
      rw [visit_of_admits found admits, mode]
      dsimp only
      rw [ih, ih']

/-- A property of walks that is kept when a fallback is taken, when a node is entered or left and when its selector is
drawn. -/
theorem Visits.keeps {P : Walk → Prop} (fallBack : ∀ w f, P w → P (w.fallBack f))
    (enter : ∀ w i depth, w.Admits i depth → P w → P (w.enter i)) (leave : ∀ w, P w → P w.leave)
    (select : ∀ (w : Walk) (node : Node α) i depth, w.Admits i depth → P w →
      P (w.select node view owner operation i))
    (h : t.Visits view owner operation i above depth w r) (hw : P w) : P r.2 := by
  induction h with
  | dangling | refused => exact fallBack _ _ hw
  | fixed _ admits | reference _ admits => exact leave _ (enter _ _ _ admits hw)
  | unreferred _ admits | childless _ admits => exact leave _ (fallBack _ _ (enter _ _ _ admits hw))
  | blend _ admits _ _ ih => exact leave _ (ih (select _ _ _ _ admits hw))
  | between _ admits _ _ _ ih ih' => exact leave _ (ih' (ih (select _ _ _ _ admits hw)))
  | gradient _ admits => exact leave _ (select _ _ _ _ admits hw)
  | unshaded _ admits => exact leave _ (fallBack _ _ (select _ _ _ _ admits hw))

/-- A visit leaves the path as it found it. -/
theorem Visits.path (h : t.Visits view owner operation i above depth w r) : r.2.path = w.path := by
  induction h with
  | blend _ _ _ _ ih =>
      simp only [Walk.leave, ih]
      rfl
  | between _ _ _ _ _ ih ih' =>
      simp only [Walk.leave, ih', ih]
      rfl
  | _ => rfl

end Danmaku.Tree
