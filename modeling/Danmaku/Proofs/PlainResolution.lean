import Danmaku.Tree.Resolve

/-! Resolution against plain evaluation. Plain evaluation follows the modes of the nodes and nothing else: it
has no bounds, it may not end, and it fails where a node cannot be used. It is given as a relation with the
trail of the nodes that it enters. Within the bounds a resolution does what plain evaluation does, and a
resolution that leaves plain evaluation anywhere has noted a fallback. -/

namespace Danmaku.Tree

/-- The nodes that an evaluation enters, each with the evaluations that it asks for, in order. -/
inductive Trail where
  | leaf (i : NodeIndex)
  | through (i : NodeIndex) (child : Trail)
  | both (i : NodeIndex) (source target : Trail)

namespace Trail

/-- In the order of their entry; a node that is shared is there each time. -/
def nodes : Trail → List NodeIndex
  | leaf i => [i]
  | through i child => i :: child.nodes
  | both i source target => i :: (source.nodes ++ target.nodes)

/-- The depth of the deepest node, that of the first being `0`. -/
def depth : Trail → Nat
  | leaf _ => 0
  | through _ child => child.depth + 1
  | both _ source target => max source.depth target.depth + 1

/-- No node is entered below itself, nor below a path. -/
def Simple : List NodeIndex → Trail → Prop
  | path, leaf i => i ∉ path
  | path, through i child => i ∉ path ∧ child.Simple (i :: path)
  | path, both i source target => i ∉ path ∧ source.Simple (i :: path) ∧ target.Simple (i :: path)

theorem length_nodes_pos (trail : Trail) : 0 < trail.nodes.length := by
  cases trail <;> exact Nat.succ_pos _

/-- A trail that passes all guards of a resolution, from a path, a depth and a number of visits on. -/
structure Fits (trail : Trail) (path : List NodeIndex) (depth visits : Nat) : Prop where
  simple : trail.Simple path
  depth_le : depth + trail.depth ≤ maxDepth
  visits_le : visits + trail.nodes.length ≤ maxVisits

variable {i : NodeIndex} {path : List NodeIndex} {depth visits : Nat} {child source target : Trail}

theorem fits_leaf_iff :
    (leaf i).Fits path depth visits ↔ i ∉ path ∧ depth ≤ maxDepth ∧ visits < maxVisits :=
  ⟨fun h => ⟨h.simple, h.depth_le, h.visits_le⟩, fun ⟨simple, hdepth, hvisits⟩ => ⟨simple, hdepth, hvisits⟩⟩

theorem fits_through_iff : (through i child).Fits path depth visits ↔
    (leaf i).Fits path depth visits ∧ child.Fits (i :: path) (depth + 1) (visits + 1) := by
  have hpos := child.length_nodes_pos
  constructor
  · rintro ⟨⟨hi, simple⟩, hdepth, hvisits⟩
    simp only [Trail.depth, nodes, List.length_cons] at hdepth hvisits
    exact ⟨fits_leaf_iff.2 ⟨hi, by omega, by omega⟩, simple, by omega, by omega⟩
  · rintro ⟨⟨hi, -, -⟩, simple, hdepth, hvisits⟩
    refine ⟨⟨hi, simple⟩, ?_, ?_⟩
    · simp only [Trail.depth]
      omega
    · simp only [nodes, List.length_cons]
      omega

theorem fits_both_iff : (both i source target).Fits path depth visits ↔
    (leaf i).Fits path depth visits ∧ source.Fits (i :: path) (depth + 1) (visits + 1) ∧
      target.Fits (i :: path) (depth + 1) (visits + 1 + source.nodes.length) := by
  have hpos := source.length_nodes_pos
  constructor
  · rintro ⟨⟨hi, hsource, htarget⟩, hdepth, hvisits⟩
    simp only [Trail.depth, nodes, List.length_cons, List.length_append] at hdepth hvisits
    exact ⟨fits_leaf_iff.2 ⟨hi, by omega, by omega⟩, ⟨hsource, by omega, by omega⟩,
      ⟨htarget, by omega, by omega⟩⟩
  · rintro ⟨⟨hi, -, -⟩, ⟨hsource, hdepth, -⟩, htarget, hdepth', hvisits⟩
    refine ⟨⟨hi, hsource, htarget⟩, ?_, ?_⟩
    · simp only [Trail.depth]
      omega
    · simp only [nodes, List.length_cons, List.length_append]
      omega

end Trail

variable {α : Type}

/-- What the selector of a node draws. -/
def selection (node : Node α) (view : Viewpoint) (owner : Owner) (operation : UInt32) (i : NodeIndex)
    (s : Stage) : Single × Stage :=
  node.selector.draw view owner (nodeOperation operation i) s

section Walk

variable {view : Viewpoint} {owner : Owner} {operation : UInt32} {i : NodeIndex} {node : Node α} {depth : Nat}
  {w : Walk} {s s' : Stage} {trail : Trail}

/-- The walk that has entered a node, with its selector drawn. -/
def Walk.select (w : Walk) (node : Node α) (view : Viewpoint) (owner : Owner) (operation : UInt32)
    (i : NodeIndex) : Walk :=
  { w.enter i with stage := (selection node view owner operation i w.stage).2 }

/-- The walk that has gone along a trail and back, to another stage. -/
def Walk.along (w : Walk) (trail : Trail) (s : Stage) : Walk :=
  { w with stage := s, visited := w.visited ++ trail.nodes.toArray }

theorem Walk.size_fallBack_lt (w : Walk) (f : Fallback) : w.fallbacks.size < (w.fallBack f).fallbacks.size := by
  rw [fallBack, Array.size_push]
  exact Nat.lt_succ_self _

theorem Walk.size_visited_select :
    (w.select node view owner operation i).visited.size = w.visited.size + 1 := Array.size_push _

theorem Walk.size_visited_along : (w.along trail s).visited.size = w.visited.size + trail.nodes.length := by
  simp [along]

theorem Walk.leave_enter : (w.enter i).leave = w.along (.leaf i) w.stage := by
  simp [enter, leave, along, Trail.nodes]

theorem Walk.leave_select : (w.select node view owner operation i).leave =
    w.along (.leaf i) (selection node view owner operation i w.stage).2 := by
  simp [select, enter, leave, along, Trail.nodes]

theorem Walk.leave_select_along :
    ((w.select node view owner operation i).along trail s).leave = w.along (.through i trail) s := by
  simp [select, enter, leave, along, Trail.nodes]

theorem Walk.leave_select_along_along {trail' : Trail} :
    (((w.select node view owner operation i).along trail s).along trail' s').leave =
      w.along (.both i trail trail') s' := by
  simp [select, enter, leave, along, Trail.nodes]

/-- The guards that a node has to pass to be entered. -/
structure Walk.Admits (w : Walk) (i : NodeIndex) (depth : Nat) : Prop where
  fresh : i ∉ w.path
  depth_le : depth ≤ maxDepth
  visits_lt : w.visited.size < maxVisits

/-- What a walk notes of a node that it does not admit. -/
def Walk.refusal (w : Walk) (i : NodeIndex) (depth : Nat) : Fallback :=
  if i ∈ w.path then .cycle i else if maxDepth < depth then .depthExceeded i else .visitsExceeded i

theorem Walk.isRefusal_refusal (w : Walk) (i : NodeIndex) (depth : Nat) : (w.refusal i depth).isRefusal = true := by
  unfold refusal
  split
  · rfl
  · split <;> rfl

theorem Walk.admits_iff_fits_leaf : w.Admits i depth ↔ (Trail.leaf i).Fits w.path depth w.visited.size :=
  ⟨fun h => ⟨h.fresh, h.depth_le, h.visits_lt⟩, fun h => ⟨h.simple, h.depth_le, h.visits_le⟩⟩

end Walk

variable [Blendable α]

/-- Plain evaluation of a node, from one stage to another. There is none of a link to nowhere, of a blend of
nothing, of a reference that is not there or reads as something else, and of a gradient of a type that has
none. -/
inductive Evaluates (t : Tree α) (view : Viewpoint) (owner : Owner) (operation : UInt32) :
    NodeIndex → Stage → Trail → α → Stage → Prop where
  | fixed {i : NodeIndex} {node : Node α} {s : Stage} (found : t.node? i = some node)
      (mode : node.mode = .fixed) : Evaluates t view owner operation i s (.leaf i) node.default s
  | reference {i : NodeIndex} {node : Node α} {s : Stage} {r : Reference} {value : α}
      (found : t.node? i = some node) (mode : node.mode = .reference r)
      (referred : referred? r view s.swarm = some value) :
      Evaluates t view owner operation i s (.leaf i) value s
  | gradient {i : NodeIndex} {node : Node α} {s : Stage} {gradient : Gradient} {value : α}
      (found : t.node? i = some node) (mode : node.mode = .gradient gradient)
      (sampled : ofGradient? gradient (selection node view owner operation i s).1 = some value) :
      Evaluates t view owner operation i s (.leaf i) value (selection node view owner operation i s).2
  | blend {i : NodeIndex} {node : Node α} {s s' : Stage} {first : NodeIndex} {others : List NodeIndex}
      {trail : Trail} {value : α} (found : t.node? i = some node) (mode : node.mode = .blend (first :: others))
      (chosen : Evaluates t view owner operation
        (t.pickChild first others (selection node view owner operation i s).1)
        (selection node view owner operation i s).2 trail value s') :
      Evaluates t view owner operation i s (.through i trail) value s'
  | between {i : NodeIndex} {node : Node α} {s s' s'' : Stage} {source target : NodeIndex}
      {trail trail' : Trail} {x y : α} (found : t.node? i = some node)
      (mode : node.mode = .between source target)
      (first : Evaluates t view owner operation source (selection node view owner operation i s).2 trail x s')
      (second : Evaluates t view owner operation target s' trail' y s'') :
      Evaluates t view owner operation i s (.both i trail trail')
        (Blendable.blend x y (selection node view owner operation i s).1) s''

variable {t : Tree α} {view : Viewpoint} {owner : Owner} {operation : UInt32} {i : NodeIndex} {node : Node α}
  {above : α} {depth : Nat} {w : Walk} {s s' : Stage} {trail : Trail} {value : α}

/-- An evaluation has one outcome. -/
theorem Evaluates.deterministic {trail' : Trail} {value' : α} {s'' : Stage}
    (h : t.Evaluates view owner operation i s trail value s')
    (h' : t.Evaluates view owner operation i s trail' value' s'') :
    trail = trail' ∧ value = value' ∧ s' = s'' := by
  induction h generalizing trail' value' s'' with
  | fixed found mode => cases h' <;> simp_all
  | reference found mode referred => cases h' <;> simp_all
  | gradient found mode sampled => cases h' <;> simp_all
  | blend found mode chosen ih =>
      cases h' with
      | blend found' mode' chosen' =>
          obtain rfl := Option.some.inj (found.symm.trans found')
          obtain ⟨rfl, rfl⟩ := List.cons.inj (Node.Mode.blend.inj (mode.symm.trans mode'))
          obtain ⟨rfl, rfl, rfl⟩ := ih chosen'
          exact ⟨rfl, rfl, rfl⟩
      | _ => simp_all
  | between found mode first second ih ih' =>
      cases h' with
      | between found' mode' first' second' =>
          obtain rfl := Option.some.inj (found.symm.trans found')
          obtain ⟨rfl, rfl⟩ := Node.Mode.between.inj (mode.symm.trans mode')
          obtain ⟨rfl, rfl, rfl⟩ := ih first'
          obtain ⟨rfl, rfl, rfl⟩ := ih' second'
          exact ⟨rfl, rfl, rfl⟩
      | _ => simp_all

theorem visit_of_dangling (missing : t.node? i = none) :
    t.visit view owner operation i above depth w = (above, w.fallBack (.danglingIndex i)) := by
  rw [visit, missing]

theorem visit_of_refused (above : α) (found : t.node? i = some node) (h : ¬w.Admits i depth) :
    t.visit view owner operation i above depth w = (node.default, w.fallBack (w.refusal i depth)) := by
  rw [visit, found, Walk.refusal]
  dsimp only
  split
  · rfl
  · split
    · rfl
    · split
      · rfl
      · rename_i hpath hdepth hvisits
        exact absurd ⟨hpath, Nat.not_lt.1 hdepth, Nat.not_le.1 hvisits⟩ h

theorem visit_of_not_admits (above : α) (found : t.node? i = some node) (h : ¬w.Admits i depth) :
    ∃ f, t.visit view owner operation i above depth w = (node.default, w.fallBack f) :=
  ⟨_, visit_of_refused above found h⟩

/-- Past the guards, a node is resolved by its mode. -/
theorem visit_of_admits (found : t.node? i = some node) (h : w.Admits i depth) :
    t.visit view owner operation i above depth w =
      let r : α × Walk :=
        match node.mode with
        | .fixed => (node.default, w.enter i)
        | .reference r =>
          match referred? r view w.stage.swarm with
          | some value => (value, w.enter i)
          | none => (node.default, (w.enter i).fallBack (.missingReference i r.name))
        | .between source target =>
          let x := t.visit view owner operation source node.default (depth + 1)
            (w.select node view owner operation i)
          let y := t.visit view owner operation target node.default (depth + 1) x.2
          (Blendable.blend x.1 y.1 (selection node view owner operation i w.stage).1, y.2)
        | .blend [] => (node.default, (w.enter i).fallBack (.emptyBlend i))
        | .blend (first :: others) =>
          t.visit view owner operation
            (t.pickChild first others (selection node view owner operation i w.stage).1) node.default
            (depth + 1) (w.select node view owner operation i)
        | .gradient gradient =>
          match ofGradient? gradient (selection node view owner operation i w.stage).1 with
          | some value => (value, w.select node view owner operation i)
          | none =>
            (node.default, (w.select node view owner operation i).fallBack (.unsupportedGradient i))
      (r.1, r.2.leave) := by
  rw [visit, found]
  simp only [if_neg h.fresh, if_neg (Nat.not_lt.2 h.depth_le), if_neg (Nat.not_le.2 h.visits_lt)]
  cases node.mode with
  | blend children => cases children <;> rfl
  | _ => rfl

/-- Where a trail of plain evaluation fits, a visit goes along it. -/
theorem visit_of_evaluates (above : α) (h : t.Evaluates view owner operation i s trail value s')
    (stage : w.stage = s) (fits : trail.Fits w.path depth w.visited.size) :
    t.visit view owner operation i above depth w = (value, w.along trail s') := by
  induction h generalizing above depth w with
  | fixed found mode =>
      subst stage
      rw [visit_of_admits found (Walk.admits_iff_fits_leaf.2 fits), mode]
      exact Prod.ext rfl Walk.leave_enter
  | reference found mode referred =>
      subst stage
      rw [visit_of_admits found (Walk.admits_iff_fits_leaf.2 fits), mode]
      dsimp only
      rw [referred]
      exact Prod.ext rfl Walk.leave_enter
  | gradient found mode sampled =>
      subst stage
      rw [visit_of_admits found (Walk.admits_iff_fits_leaf.2 fits), mode]
      dsimp only
      rw [sampled]
      exact Prod.ext rfl Walk.leave_select
  | @blend i node s s' first others trail value found mode chosen ih =>
      subst stage
      obtain ⟨here, below⟩ := Trail.fits_through_iff.1 fits
      rw [← Walk.size_visited_select] at below
      rw [visit_of_admits found (Walk.admits_iff_fits_leaf.2 here), mode]
      dsimp only
      rw [ih node.default (w := w.select node view owner operation i) rfl below]
      exact Prod.ext rfl Walk.leave_select_along
  | @between i node s s' s'' source target trail trail' x y found mode first second ih ih' =>
      subst stage
      obtain ⟨here, hsource, htarget⟩ := Trail.fits_both_iff.1 fits
      rw [← Walk.size_visited_select] at hsource htarget
      rw [← Walk.size_visited_along] at htarget
      rw [visit_of_admits found (Walk.admits_iff_fits_leaf.2 here), mode]
      dsimp only
      rw [ih node.default (w := w.select node view owner operation i) rfl hsource,
        ih' node.default (w := (w.select node view owner operation i).along trail s') rfl htarget]
      exact Prod.ext rfl Walk.leave_select_along_along

/-- A visit falls back somewhere, or it goes along a trail of plain evaluation that fits. -/
theorem fallBack_or_evaluates (t : Tree α) (view : Viewpoint) (owner : Owner) (operation : UInt32)
    (i : NodeIndex) (above : α) (depth : Nat) (w : Walk) :
    w.fallbacks.size < (t.visit view owner operation i above depth w).2.fallbacks.size ∨
      ∃ trail value s', t.Evaluates view owner operation i w.stage trail value s' ∧
        trail.Fits w.path depth w.visited.size := by
  cases found : t.node? i with
  | none =>
      rw [visit_of_dangling found]
      exact Or.inl (Walk.size_fallBack_lt _ _)
  | some node =>
      by_cases admits : w.Admits i depth
      · have hdepth := admits.depth_le
        have here := Walk.admits_iff_fits_leaf.1 admits
        rw [visit_of_admits found admits]
        cases mode : node.mode with
        | fixed => exact Or.inr ⟨_, _, _, .fixed found mode, here⟩
        | reference r =>
            dsimp only
            cases referred : (referred? r view w.stage.swarm : Option α) with
            | none => exact Or.inl (Walk.size_fallBack_lt (w.enter i) _)
            | some value => exact Or.inr ⟨_, _, _, .reference found mode referred, here⟩
        | gradient gradient =>
            dsimp only
            cases sampled :
                (ofGradient? gradient (selection node view owner operation i w.stage).1 : Option α) with
            | none => exact Or.inl (Walk.size_fallBack_lt (w.select node view owner operation i) _)
            | some value => exact Or.inr ⟨_, _, _, .gradient found mode sampled, here⟩
        | blend children =>
            cases children with
            | nil => exact Or.inl (Walk.size_fallBack_lt (w.enter i) _)
            | cons first others =>
                rcases fallBack_or_evaluates t view owner operation
                  (t.pickChild first others (selection node view owner operation i w.stage).1) node.default
                  (depth + 1) (w.select node view owner operation i) with hlt | ⟨trail, value, s', chosen, fits⟩
                · exact Or.inl hlt
                · rw [Walk.size_visited_select] at fits
                  exact Or.inr ⟨_, _, _, .blend found mode chosen, Trail.fits_through_iff.2 ⟨here, fits⟩⟩
        | between source target =>
            dsimp only
            have hsource := fallBack_or_evaluates t view owner operation source node.default (depth + 1)
              (w.select node view owner operation i)
            have htarget := fallBack_or_evaluates t view owner operation target node.default (depth + 1)
              (t.visit view owner operation source node.default (depth + 1)
                (w.select node view owner operation i)).2
            rcases hsource with hlt | ⟨trail, x, s', first, fits⟩
            · rcases htarget with hlt' | ⟨trail', y, s'', second, fits'⟩
              · exact Or.inl (Nat.lt_trans hlt hlt')
              · rw [visit_of_evaluates _ second rfl fits']
                exact Or.inl hlt
            · rw [visit_of_evaluates _ first rfl fits] at htarget ⊢
              rcases htarget with hlt' | ⟨trail', y, s'', second, fits'⟩
              · exact Or.inl hlt'
              · rw [Walk.size_visited_along] at fits'
                rw [Walk.size_visited_select] at fits fits'
                have both := Trail.fits_both_iff.2 ⟨here, fits, fits'⟩
                exact Or.inr ⟨_, _, _, .between found mode first second, both⟩
      · obtain ⟨f, hf⟩ := visit_of_not_admits above found admits
        rw [hf]
        exact Or.inl (Walk.size_fallBack_lt _ _)
termination_by maxDepth + 1 - depth

theorem resolveFrom_of_evaluates (h : t.Evaluates view owner operation i s trail value s')
    (fits : trail.Fits [] 0 0) :
    t.resolveFrom i view owner operation s =
      ({ value, fallbacks := #[], visited := trail.nodes.toArray }, s') := by
  have hvisit := visit_of_evaluates t.root.default (w := { stage := s }) h rfl fits
  simp only [resolveFrom, hvisit, Walk.along]
  simp

theorem exists_fits_of_fallbacks_eq_empty
    (h : (t.resolveFrom i view owner operation s).1.fallbacks = #[]) :
    ∃ trail value s', t.Evaluates view owner operation i s trail value s' ∧ trail.Fits [] 0 0 := by
  have hvisit : (t.visit view owner operation i t.root.default 0 { stage := s }).2.fallbacks = #[] := h
  rcases fallBack_or_evaluates t view owner operation i t.root.default 0 { stage := s } with hlt | heval
  · rw [hvisit] at hlt
    exact absurd hlt (Nat.lt_irrefl 0)
  · exact heval

/-- A resolution without a fallback gives the value of plain evaluation and leaves its stage. In turn, where
plain evaluation succeeds within the bounds of visits and depth and enters no node below itself, the resolution
has no fallback, gives the same value, leaves the same stage and has visited the same nodes. -/
theorem resolveFrom_agrees_with_evaluates (t : Tree α) (i : NodeIndex) (view : Viewpoint) (owner : Owner)
    (operation : UInt32) (s : Stage) :
    let r := t.resolveFrom i view owner operation s
    (r.1.fallbacks = #[] → ∃ trail, t.Evaluates view owner operation i s trail r.1.value r.2) ∧
    ∀ trail value s', t.Evaluates view owner operation i s trail value s' →
      trail.nodes.length ≤ maxVisits → trail.depth ≤ maxDepth → trail.Simple [] →
      r = ({ value, fallbacks := #[], visited := trail.nodes.toArray }, s') := by
  intro r
  constructor
  · intro hr
    obtain ⟨trail, value, s', h, fits⟩ := exists_fits_of_fallbacks_eq_empty hr
    refine ⟨trail, ?_⟩
    rw [show r = _ from resolveFrom_of_evaluates h fits]
    exact h
  · intro trail value s' h visits_le depth_le simple
    exact resolveFrom_of_evaluates h ⟨simple, by rwa [Nat.zero_add], by rwa [Nat.zero_add]⟩

end Danmaku.Tree
