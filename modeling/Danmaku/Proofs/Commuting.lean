import Danmaku.Proofs.Memos

/-! Resolutions that draw nothing afresh commute. What such a resolution does is decided by all of a swarm but its
memos, and all that it leaves there are the values of its keys; so another one that goes first takes nothing from
it and gives it nothing. -/

namespace Danmaku

variable {α β : Type}

/-- Whether a node with this mode draws its selector. -/
def Node.Mode.selects : Node.Mode → Bool
  | between _ _ | blend (_ :: _) | gradient _ => true
  | fixed | blend [] | reference _ => false

/-- The random factor that a node draws. -/
def Node.factor? (node : Node α) : Option RandomFactor :=
  match node.selector.source with
  | .random factor => if node.mode.selects then some factor else none
  | _ => none

theorem Node.factor?_of_selects {node : Node α} {factor : RandomFactor} (selects : node.mode.selects = true)
    (source : node.selector.source = .random factor) : node.factor? = some factor := by
  rw [factor?, source]
  exact if_pos selects

namespace Tree

/-- If the node draws a random factor, it is shared and finds the ancestors that make its key. -/
def SharesAt (t : Tree α) (view : Viewpoint) (operation : UInt32) (s : Swarm) (i : NodeIndex) : Prop :=
  ∀ node factor, t.node? i = some node → node.factor? = some factor → factor.shared = true ∧
    ∃ id key, view.projectile = some id ∧ SharedKey.of? s id (nodeOperation operation i) factor = some key

theorem SharesAt.congr {t : Tree α} {view : Viewpoint} {operation : UInt32} {s s' : Swarm} {i : NodeIndex}
    (h : t.SharesAt view operation s i) (forget : s'.forget = s.forget) : t.SharesAt view operation s' i := by
  intro node factor found hfactor
  obtain ⟨shared, id, key, hid, hkey⟩ := h node factor found hfactor
  refine ⟨shared, id, key, hid, ?_⟩
  rw [← SharedKey.of?_forget, forget, SharedKey.of?_forget, hkey]

/-- Whatever is remembered, a selector draws the same and notes the same. -/
theorem exists_notes_selection {t : Tree α} {view : Viewpoint} {operation : UInt32} {i : NodeIndex} {node : Node α}
    {s : Stage} (owner : Owner) (shares : t.SharesAt view operation s.swarm i) (found : t.node? i = some node)
    (selects : node.mode.selects = true) (hr : s.swarm.Remembers) :
    ∃ keys, ∀ s' : Stage, s'.swarm.forget = s.swarm.forget → s'.swarm.Remembers →
      (selection node view owner operation i s').1 = (selection node view owner operation i s).1 ∧
      Swarm.Notes keys s'.swarm (selection node view owner operation i s').2.swarm := by
  suffices raw : ∃ keys, ∀ s' : Stage, s'.swarm.forget = s.swarm.forget → s'.swarm.Remembers →
      (node.selector.source.draw view owner (nodeOperation operation i) s').1 =
        (node.selector.source.draw view owner (nodeOperation operation i) s).1 ∧
      Swarm.Notes keys s'.swarm (node.selector.source.draw view owner (nodeOperation operation i) s').2.swarm by
    obtain ⟨keys, raw⟩ := raw
    refine ⟨keys, fun s' forget hr' => ?_⟩
    obtain ⟨same, notes⟩ := raw s' forget hr'
    exact ⟨congrArg (Selector.remap node.selector.curve) same, notes⟩
  cases source : node.selector.source with
  | random factor =>
      obtain ⟨shared, id, key, hid, hkey⟩ := shares node factor found (Node.factor?_of_selects selects source)
      obtain ⟨x, keys, noted⟩ := Swarm.exists_notes_of_key hkey
      have drawn {s' : Stage} {swarm : Swarm}
          (h : s'.swarm.sharedDraw? id (nodeOperation operation i) factor = some (x, swarm)) :
          factor.draw view (nodeOperation operation i) s' = (x, { s' with swarm }) := by
        rw [RandomFactor.draw, if_pos shared, hid, Option.bind_some, h]
      refine ⟨keys, fun s' forget hr' => ?_⟩
      obtain ⟨_, hs, -⟩ := noted s.swarm rfl hr
      obtain ⟨_, hs', notes⟩ := noted s'.swarm forget hr'
      rw [Selector.Source.draw, Selector.Source.draw, drawn hs, drawn hs']
      exact ⟨rfl, notes⟩
  | lineage q =>
      refine ⟨∅, fun s' forget _ => ?_⟩
      have same : q.value? owner view s'.swarm = q.value? owner view s.swarm := by
        rw [← q.value?_forget, forget, q.value?_forget]
      simp only [Selector.Source.draw, same]
      cases q.value? owner view s.swarm with
      | none => exact ⟨rfl, .refl _⟩
      | some x => exact ⟨rfl, .refl _⟩
  | global name =>
      refine ⟨∅, fun s' _ _ => ?_⟩
      simp only [Selector.Source.draw]
      cases (view.globals.get? Single name : Option Single) with
      | none => exact ⟨rfl, .refl _⟩
      | some x => exact ⟨rfl, .refl _⟩
  | combined => exact ⟨∅, fun s' _ _ => ⟨rfl, .refl _⟩⟩

namespace Walk

/-- Walks that have come the same way, over swarms that are the same but for their memos. -/
structure Alike (w w' : Walk) : Prop where
  path : w.path = w'.path
  visited : w.visited = w'.visited
  fallbacks : w.fallbacks = w'.fallbacks
  forget : w'.stage.swarm.forget = w.stage.swarm.forget

variable {w w' : Walk} {i : NodeIndex} {depth : Nat}

theorem Alike.refl (w : Walk) : w.Alike w := ⟨rfl, rfl, rfl, rfl⟩

theorem Alike.fallBack (h : w.Alike w') (f : Fallback) : (w.fallBack f).Alike (w'.fallBack f) :=
  { h with fallbacks := congrArg (·.push f) h.fallbacks }

theorem Alike.enter (h : w.Alike w') (i : NodeIndex) : (w.enter i).Alike (w'.enter i) :=
  { h with path := congrArg (i :: ·) h.path, visited := congrArg (·.push i) h.visited }

theorem Alike.leave (h : w.Alike w') : w.leave.Alike w'.leave := { h with path := congrArg List.tail h.path }

theorem Alike.select (h : w.Alike w') {node : Node α} {view : Viewpoint} {owner : Owner} {operation : UInt32}
    (forget : (w.select node view owner operation i).stage.swarm.forget = w.stage.swarm.forget)
    (forget' : (w'.select node view owner operation i).stage.swarm.forget = w'.stage.swarm.forget) :
    (w.select node view owner operation i).Alike (w'.select node view owner operation i) where
  path := (h.enter i).path
  visited := (h.enter i).visited
  fallbacks := h.fallbacks
  forget := (forget'.trans h.forget).trans forget.symm

theorem Alike.admits_iff (h : w.Alike w') : w'.Admits i depth ↔ w.Admits i depth := by
  rw [admits_iff_fits_leaf, admits_iff_fits_leaf, h.path, h.visited]

end Walk

section Visit

variable [Blendable α] {t : Tree α} {view : Viewpoint} {owner : Owner} {operation : UInt32}

theorem mem_visited_visit (i : NodeIndex) (above : α) (depth : Nat) {w : Walk} {j : NodeIndex}
    (h : j ∈ w.visited) : j ∈ (t.visit view owner operation i above depth w).2.visited :=
  (t.visits_visit view owner operation i above depth w).keeps (P := fun w => j ∈ w.visited) (fun _ _ h => h)
    (fun _ _ _ _ h => Array.mem_push_of_mem _ h) (fun _ h => h) (fun _ _ _ _ _ h => Array.mem_push_of_mem _ h) h

theorem mem_visited_of_admits {i : NodeIndex} {node : Node α} {depth : Nat} {w : Walk} (above : α)
    (found : t.node? i = some node) (admits : w.Admits i depth) :
    i ∈ (t.visit view owner operation i above depth w).2.visited := by
  have entered : i ∈ (w.enter i).visited := Array.mem_push_self
  have selected : i ∈ (w.select node view owner operation i).visited := entered
  rw [visit_of_admits found admits]
  cases mode : node.mode with
  | fixed => exact entered
  | reference r =>
      dsimp only
      cases (referred? r view w.stage.swarm : Option α) <;> exact entered
  | gradient gradient =>
      dsimp only
      cases (ofGradient? gradient (selection node view owner operation i w.stage).1 : Option α) <;> exact entered
  | blend children =>
      cases children with
      | nil => exact entered
      | cons first others => exact mem_visited_visit _ node.default (depth + 1) selected
  | between source target =>
      refine mem_visited_visit target node.default (depth + 1) ?_
      exact mem_visited_visit source node.default (depth + 1) selected

/-- Walks that have come the same way are refused alike. -/
theorem visit_of_not_admits_alike {i : NodeIndex} {node : Node α} {depth : Nat} {w : Walk} (above : α)
    (found : t.node? i = some node) (refused : ¬w.Admits i depth) :
    ∃ f, ∀ w', w.Alike w' →
      t.visit view owner operation i above depth w' = (node.default, w'.fallBack f) := by
  refine ⟨w.refusal i depth, fun w' h => ?_⟩
  rw [visit_of_refused above found (mt h.admits_iff.1 refused), Walk.refusal, Walk.refusal, h.path]

/-- By the side of one visit, the other comes to the same and notes these keys. -/
structure Echo (keys : Set (Nat × UInt32)) (w' : Walk) (r r' : β × Walk) : Prop where
  value : r'.1 = r.1
  alike : r.2.Alike r'.2
  notes : Swarm.Notes keys w'.stage.swarm r'.2.stage.swarm
  remembers : r'.2.stage.swarm.Remembers

/-- From all walks like this one, the same comes out and the same is noted. -/
def Echoes (f : Walk → β × Walk) (w : Walk) : Prop :=
  ∃ keys, ∀ w', w.Alike w' → w'.stage.swarm.Remembers → Echo keys w' (f w) (f w')

namespace Echoes

variable {γ : Type} {f g : Walk → β × Walk} {w : Walk}

theorem congr (same : ∀ w', w.Alike w' → f w' = g w') (h : Echoes g w) : Echoes f w := by
  obtain ⟨keys, h⟩ := h
  refine ⟨keys, fun w' alike hr => ?_⟩
  rw [same w (.refl w), same w' alike]
  exact h w' alike hr

theorem forget_eq (h : Echoes f w) (hr : w.stage.swarm.Remembers) :
    (f w).2.stage.swarm.forget = w.stage.swarm.forget := by
  obtain ⟨_, h⟩ := h
  exact (h w (.refl w) hr).notes.forget

theorem remembers (h : Echoes f w) (hr : w.stage.swarm.Remembers) : (f w).2.stage.swarm.Remembers := by
  obtain ⟨_, h⟩ := h
  exact (h w (.refl w) hr).remembers

/-- What leaves the swarm as it is notes nothing. -/
theorem of_swarm (value : ∀ w', w.Alike w' → (f w').1 = (f w).1) (alike : ∀ w', w.Alike w' → (f w).2.Alike (f w').2)
    (swarm : ∀ w', (f w').2.stage.swarm = w'.stage.swarm) : Echoes f w := by
  refine ⟨∅, fun w' h hr => ⟨value w' h, alike w' h, ?_, ?_⟩⟩
  · rw [swarm]
    exact .refl _
  · rw [swarm]
    exact hr

theorem bind {k : β → Walk → γ × Walk} (hf : Echoes f w) (hk : Echoes (k (f w).1) (f w).2) :
    Echoes (fun w => k (f w).1 (f w).2) w := by
  obtain ⟨keys, hf⟩ := hf
  obtain ⟨keys', hk⟩ := hk
  refine ⟨keys ∪ keys', fun w' alike hr => ?_⟩
  have x := hf w' alike hr
  have y := hk (f w').2 x.alike x.remembers
  dsimp only
  rw [x.value]
  exact { y with notes := x.notes.trans y.notes }

theorem map (h : Echoes f w) (k : β → γ) : Echoes (fun w => (k (f w).1, (f w).2)) w :=
  h.bind (k := fun x w => (k x, w)) (of_swarm (fun _ _ => rfl) (fun _ h => h) (fun _ => rfl))

theorem leave (h : Echoes f w) : Echoes (fun w => ((f w).1, (f w).2.leave)) w :=
  h.bind (k := fun x w => (x, w.leave)) (of_swarm (fun _ _ => rfl) (fun _ h => h.leave) (fun _ => rfl))

end Echoes

omit [Blendable α] in
/-- A random factor that is shared is drawn alike. -/
theorem echoes_select {s : Swarm} {node : Node α} {i : NodeIndex} {w : Walk} (owner : Owner)
    (shares : t.SharesAt view operation s i) (found : t.node? i = some node) (selects : node.mode.selects = true)
    (hr : w.stage.swarm.Remembers) (hs : w.stage.swarm.forget = s.forget) :
    Echoes (fun w => ((selection node view owner operation i w.stage).1, w.select node view owner operation i))
      w := by
  obtain ⟨keys, noted⟩ := exists_notes_selection owner (shares.congr hs) found selects hr
  have kept := Swarm.keptByUpdates_remembers.toKeptByDraws
  refine ⟨keys, fun w' alike hr' => ?_⟩
  obtain ⟨-, self⟩ := noted w.stage rfl hr
  obtain ⟨same, notes⟩ := noted w'.stage alike.forget hr'
  exact {
    value := same
    alike := alike.select self.forget notes.forget
    notes := notes
    remembers := keeps_selector kept node.selector view owner (nodeOperation operation i) w'.stage hr' }

theorem echoes_visit {s : Swarm} (i : NodeIndex) (above : α) (depth : Nat) (w : Walk)
    (hr : w.stage.swarm.Remembers) (hs : w.stage.swarm.forget = s.forget)
    (shares : ∀ j ∈ (t.visit view owner operation i above depth w).2.visited, t.SharesAt view operation s j) :
    Echoes (t.visit view owner operation i above depth) w := by
  cases found : t.node? i with
  | none =>
      refine .congr (fun w' _ => visit_of_dangling found) ?_
      exact .of_swarm (fun _ _ => rfl) (fun _ h => h.fallBack _) (fun _ => rfl)
  | some node =>
      by_cases admits : w.Admits i depth
      · have hdepth := admits.depth_le
        have here := shares i (mem_visited_of_admits above found admits)
        have selected (selects : node.mode.selects = true) := echoes_select owner here found selects hr hs
        rw [visit_of_admits found admits] at shares
        refine .congr (fun w' h => visit_of_admits found (h.admits_iff.2 admits)) ?_
        cases mode : node.mode with
        | fixed => exact .of_swarm (fun _ _ => rfl) (fun _ h => (h.enter i).leave) (fun _ => rfl)
        | reference r =>
            have same {w' : Walk} (h : w.Alike w') :
                (referred? r view w'.stage.swarm : Option α) = referred? r view w.stage.swarm := by
              rw [← referred?_forget r view w'.stage.swarm, h.forget, referred?_forget]
            refine .leave ?_
            cases referred : (referred? r view w.stage.swarm : Option α) with
            | none =>
                refine .congr (g := fun w' => (node.default, (w'.enter i).fallBack (.missingReference i r.name)))
                  (fun w' h => ?_) ?_
                · simp only [same h, referred]
                · exact .of_swarm (fun _ _ => rfl) (fun _ h => (h.enter i).fallBack _) (fun _ => rfl)
            | some value =>
                refine .congr (g := fun w' => (value, w'.enter i)) (fun w' h => ?_) ?_
                · simp only [same h, referred]
                · exact .of_swarm (fun _ _ => rfl) (fun _ h => h.enter i) (fun _ => rfl)
        | gradient gradient =>
            have selected := selected (by rw [mode]; rfl)
            let shade (x : Single) (w : Walk) : α × Walk :=
              (ofGradient? gradient x : Option α).elim (node.default, w.fallBack (.unsupportedGradient i)) (·, w)
            have shaded : Echoes (shade (selection node view owner operation i w.stage).1)
                (w.select node view owner operation i) := by
              simp only [shade]
              cases (ofGradient? gradient (selection node view owner operation i w.stage).1 : Option α) with
              | none => exact .of_swarm (fun _ _ => rfl) (fun _ h => h.fallBack _) (fun _ => rfl)
              | some value => exact .of_swarm (fun _ _ => rfl) (fun _ h => h) (fun _ => rfl)
            refine .leave (.congr (fun w' _ => ?_) (selected.bind (k := shade) shaded))
            simp only [shade]
            cases (ofGradient? gradient (selection node view owner operation i w'.stage).1 : Option α) <;> rfl
        | blend children =>
            cases children with
            | nil => exact .of_swarm (fun _ _ => rfl) (fun _ h => ((h.enter i).fallBack _).leave) (fun _ => rfl)
            | cons first others =>
                rw [mode] at shares
                have selected := selected (by rw [mode]; rfl)
                refine .leave (selected.bind (k := fun x => t.visit view owner operation
                  (t.pickChild first others x) node.default (depth + 1)) ?_)
                exact echoes_visit _ node.default (depth + 1) _ (selected.remembers hr)
                  ((selected.forget_eq hr).trans hs) shares
        | between source target =>
            rw [mode] at shares
            have selected := selected (by rw [mode]; rfl)
            have first : Echoes (t.visit view owner operation source node.default (depth + 1))
                (w.select node view owner operation i) :=
              echoes_visit source node.default (depth + 1) _ (selected.remembers hr)
                ((selected.forget_eq hr).trans hs) fun j hj =>
                  shares j (mem_visited_visit target node.default (depth + 1) hj)
            have hr' := selected.remembers hr
            have second := echoes_visit target node.default (depth + 1) _ (first.remembers hr')
                ((first.forget_eq hr').trans ((selected.forget_eq hr).trans hs)) shares
            refine .leave (selected.bind (k := fun x w =>
              let a := t.visit view owner operation source node.default (depth + 1) w
              let b := t.visit view owner operation target node.default (depth + 1) a.2
              (Blendable.blend a.1 b.1 x, b.2)) ?_)
            exact first.bind (k := fun a w =>
              let b := t.visit view owner operation target node.default (depth + 1) w
              (Blendable.blend a b.1 _, b.2)) (second.map (Blendable.blend _ · _))
      · obtain ⟨f, refusedAlike⟩ := visit_of_not_admits_alike above found admits
        refine .congr refusedAlike ?_
        exact .of_swarm (fun _ _ => rfl) (fun _ h => h.fallBack _) (fun _ => rfl)
termination_by maxDepth + 1 - depth

theorem exists_notes_resolveFrom (i : NodeIndex) (owner : Owner) {s : Stage} (hr : s.swarm.Remembers)
    (shares : ∀ j ∈ (t.resolveFrom i view owner operation s).1.visited, t.SharesAt view operation s.swarm j) :
    ∃ keys, ∀ s' : Stage, s'.swarm.forget = s.swarm.forget → s'.swarm.Remembers →
      (t.resolveFrom i view owner operation s').1 = (t.resolveFrom i view owner operation s).1 ∧
      Swarm.Notes keys s'.swarm (t.resolveFrom i view owner operation s').2.swarm := by
  obtain ⟨keys, echo⟩ := echoes_visit i t.root.default 0 { stage := s } hr rfl shares
  refine ⟨keys, fun s' forget hr' => ?_⟩
  obtain ⟨value, alike, notes, -⟩ := echo { stage := s' } ⟨rfl, rfl, rfl, forget⟩ hr'
  constructor
  · simp only [resolveFrom, value, alike.fallbacks, alike.visited]
  · rw [swarm_resolveFrom]
    exact notes

end Visit

end Tree

/-- A resolution that is asked for. -/
structure Request (α : Type) where
  tree : Tree α
  start : NodeIndex := .root
  view : Viewpoint
  owner : Owner
  operation : UInt32

namespace Request

variable [Blendable α] [Blendable β]

def resolve (q : Request α) : Draw (Tree.Resolution α) := q.tree.resolveFrom q.start q.view q.owner q.operation

/-- All random factors that the resolution meets are shared and find the ancestors that make their keys. -/
def SharesAll (q : Request α) (s : Stage) : Prop :=
  ∀ i ∈ (q.resolve s).1.visited, q.tree.SharesAt q.view q.operation s.swarm i

/-- Resolutions that draw nothing afresh give the same, whichever goes first: the same values by way of the same
nodes and fallbacks. They leave the same swarm but for the order in the memos, with the generator as it was. -/
theorem resolve_commutes (s : Stage) (reachable : s.swarm.Reachable) (a : Request α) (b : Request β)
    (ha : a.SharesAll s) (hb : b.SharesAll s) :
    let ab := b.resolve (a.resolve s).2
    let ba := a.resolve (b.resolve s).2
    (a.resolve s).1 = ba.1 ∧ ab.1 = (b.resolve s).1 ∧ ab.2.swarm.Alike ba.2.swarm ∧
    (a.resolve s).2.swarm.generator = s.swarm.generator ∧ ab.2.swarm.generator = s.swarm.generator ∧
    (b.resolve s).2.swarm.generator = s.swarm.generator ∧ ba.2.swarm.generator = s.swarm.generator := by
  intro ab ba
  have hr := reachable.remembers
  have kept := Swarm.keptByUpdates_remembers.toKeptByDraws
  obtain ⟨keys, noted⟩ := Tree.exists_notes_resolveFrom a.start a.owner hr ha
  obtain ⟨keys', noted'⟩ := Tree.exists_notes_resolveFrom b.start b.owner hr hb
  obtain ⟨-, first⟩ := noted s rfl hr
  obtain ⟨-, first'⟩ := noted' s rfl hr
  obtain ⟨same', second'⟩ := noted' (a.resolve s).2 first.forget (keeps_resolveFrom kept _ _ _ _ _ s hr)
  obtain ⟨same, second⟩ := noted (b.resolve s).2 first'.forget (keeps_resolveFrom kept _ _ _ _ _ s hr)
  have one := first.trans second'
  have other := first'.trans second
  rw [Set.union_comm] at other
  exact ⟨same.symm, same', one.alike other, Swarm.generator_eq_of_forget first.forget,
    Swarm.generator_eq_of_forget one.forget, Swarm.generator_eq_of_forget first'.forget,
    Swarm.generator_eq_of_forget other.forget⟩

/-- A number that siblings share by their emitter. -/
def ofSibling (id : ProjectileId) (operation : UInt32) : Request Single where
  tree := ⟨#[{ mode := .between ⟨2⟩ ⟨3⟩, default := 0, selector := .sharedRandom 1 false }, { default := 0 },
    { default := 1 }], by decide⟩
  view := { projectile := some id }
  owner := .bullet
  operation

theorem sharesAll_ofSibling {s : Stage} {id : ProjectileId} {operation : UInt32} (key : SharedKey)
    (hkey : SharedKey.of? s.swarm id (Tree.nodeOperation operation .root) { shared := true, distance := 1 } =
      some key) : (ofSibling id operation).SharesAll s := by
  intro i _ node factor found hfactor
  unfold Tree.node? at found
  split at found
  · cases found
  · rename_i hne
    -- Only the root draws its selector.
    match hn : i.val.toNat - 1, found with
    | 0, found =>
        have root : i = .root := by
          have hval : i.val.toNat ≠ 0 := fun h => hne (UInt32.toNat_inj.1 h)
          refine congrArg NodeIndex.mk (UInt32.toNat_inj.1 ?_)
          rw [UInt32.toNat_one]
          omega
        obtain rfl := Option.some.inj found
        obtain rfl := Option.some.inj hfactor
        rw [root]
        exact ⟨rfl, id, key, rfl, hkey⟩
    | 1, found | 2, found =>
        obtain rfl := Option.some.inj found
        cases hfactor
    | n + 3, found => cases found

/-- Siblings ask for the same value under one key. -/
theorem siblings_commute :
    Swarm.family.Reachable ∧ (ofSibling ⟨2⟩ 5).SharesAll { swarm := Swarm.family } ∧
    (ofSibling ⟨3⟩ 5).SharesAll { swarm := Swarm.family } ∧
    let s : Stage := { swarm := Swarm.family }
    let ab := (ofSibling ⟨3⟩ 5).resolve ((ofSibling ⟨2⟩ 5).resolve s).2
    let ba := (ofSibling ⟨2⟩ 5).resolve ((ofSibling ⟨3⟩ 5).resolve s).2
    ((ofSibling ⟨2⟩ 5).resolve s).1 = ba.1 ∧ ab.1 = ((ofSibling ⟨3⟩ 5).resolve s).1 ∧
    ab.2.swarm.Alike ba.2.swarm := by
  have ha : (ofSibling ⟨2⟩ 5).SharesAll { swarm := Swarm.family } :=
    sharesAll_ofSibling ⟨⟨1⟩, 3635636⟩ (by decide +kernel)
  have hb : (ofSibling ⟨3⟩ 5).SharesAll { swarm := Swarm.family } :=
    sharesAll_ofSibling ⟨⟨1⟩, 3635636⟩ (by decide +kernel)
  obtain ⟨same, same', alike, -⟩ := resolve_commutes { swarm := Swarm.family } Swarm.reachable_family _ _ ha hb
  exact ⟨Swarm.reachable_family, ha, hb, same, same', alike⟩

end Request

end Danmaku
