import Danmaku.Proofs.Footprint
import Danmaku.Proofs.SingleOrder

/-! What a resolution can come to. It starts from the defaults of nodes, from parameters that nodes refer to and from
samples of gradients, and from there on it only blends, by selectors that are numbers in `[0, 1]`. So a property of all
that it can start from is a property of its value, if blends keep it; and where blends only choose, nothing is made up
on the way. -/

namespace Danmaku

/-- However a curve bends it, a selector is a number in `[0, 1]`. -/
theorem Selector.remap_between (curve : Curve Single) (raw : Single) : 0 ≤ remap curve raw ∧ remap curve raw ≤ 1 := by
  unfold remap
  dsimp only
  split
  · exact ⟨by decide, by decide⟩
  · rename_i number
    exact Single.clamp_between (eq_false_of_ne_true number) rfl rfl (by decide)

theorem Blackboard.mem_of_find? {b : Blackboard} {name : String} {value : Payload} (found : b.find? name = some value) :
    (name, value) ∈ b.entries := by
  obtain ⟨before, after, entries, -⟩ := List.lookup_eq_some_iff.1 found
  rw [entries]
  exact List.mem_append_right before List.mem_cons_self

namespace Swarm

variable {s s' : Swarm} {id : ProjectileId} {p : Projectile}

theorem mem_of_ancestor? {n : Nat} (found : s.ancestor? id n = some p) : p ∈ s.projectiles := by
  induction n generalizing id with
  | zero => exact mem_of_find? found
  | succ n ih =>
      obtain ⟨q, -, found⟩ := Option.bind_eq_some_iff.1 found
      obtain ⟨parent, -, found⟩ := Option.bind_eq_some_iff.1 found
      exact ih found

/-- What is referred to is the same as long as custom tables stay. -/
theorem Retained.referred? {α : Type} [Blendable α] (h : s.Retained (fun _ b b' => b' = b) s') (r : Reference)
    (view : Viewpoint) : (Tree.referred? r view s' : Option α) = Tree.referred? r view s := by
  unfold Tree.referred?
  cases r.holder with
  | global => rfl
  | lineage =>
      cases view.projectile with
      | none => rfl
      | some id =>
          have tables := h.map_ancestor? (f := (·.custom)) (fun _ _ kept => kept.custom) id r.distance.toNat
          have read (s : Swarm) : ((s.ancestor? id r.distance.toNat).bind (·.custom.get? α r.name)) =
              ((s.ancestor? id r.distance.toNat).map (·.custom)).bind (·.get? α r.name) := by
            rw [Option.bind_map]
            rfl
          exact (read s').trans ((congrArg (Option.bind · _) tables).trans (read s).symm)

end Swarm

namespace Tree

variable {α : Type}

theorem mem_nodes {t : Tree α} {i : NodeIndex} {node : Node α} (found : t.node? i = some node) : node ∈ t.nodes := by
  unfold node? at found
  split at found
  · cases found
  · exact Array.mem_of_getElem? found

theorem root_mem (t : Tree α) : t.root ∈ t.nodes := Array.getElem_mem t.nonempty

theorem selection_between (node : Node α) (view : Viewpoint) (owner : Owner) (operation : UInt32) (i : NodeIndex)
    (s : Stage) : 0 ≤ (selection node view owner operation i s).1 ∧ (selection node view owner operation i s).1 ≤ 1 :=
  Selector.remap_between node.selector.curve _

variable [Blendable α]

/-- The defaults of the tree and the samples of its gradients have the property, and blends keep it. -/
structure Hereditary (t : Tree α) (P : α → Prop) : Prop where
  default : ∀ node ∈ t.nodes, P node.default
  sampled : ∀ node ∈ t.nodes, ∀ gradient x value, node.mode = .gradient gradient → 0 ≤ x → x ≤ 1 →
    ofGradient? gradient x = some value → P value
  blended : ∀ x y k, P x → P y → 0 ≤ k → k ≤ 1 → P (Blendable.blend x y k)

/-- The value is the default of a node, or a parameter that a node refers to. -/
def Supplies (t : Tree α) (view : Viewpoint) (s : Swarm) (value : α) : Prop :=
  ∃ node ∈ t.nodes, value = node.default ∨ ∃ r, node.mode = .reference r ∧ referred? r view s = some value

variable {t : Tree α} {P : α → Prop} {view : Viewpoint} {owner : Owner} {operation : UInt32} {i : NodeIndex}
  {above : α} {depth : Nat} {w : Walk} {r : α × Walk}

theorem Visits.hereditary {s : Swarm} (h : t.Visits view owner operation i above depth w r)
    (closed : t.Hereditary P)
    (referred : ∀ node ∈ t.nodes, ∀ r value, node.mode = .reference r → referred? r view s = some value → P value)
    (hs : s.Retained (fun _ b b' => b' = b) w.stage.swarm) (habove : P above) : P r.1 := by
  -- Draws come between, but they change no custom table: a reference still reads those of the start.
  have kept := Swarm.keptByDraws_retained (fun _ b b' => b' = b) s
  induction h with
  | dangling => exact habove
  | refused found | fixed found | unreferred found | childless found | unshaded found =>
      exact closed.default _ (mem_nodes found)
  | reference found _ mode known =>
      rw [hs.referred?] at known
      exact referred _ (mem_nodes found) _ _ mode known
  | blend found _ _ _ ih => exact ih (keeps_select kept _ _ _ _ _ _ hs) (closed.default _ (mem_nodes found))
  | @between i node _ _ w _ _ _ _ found _ _ first _ ih ih' =>
      have selected := keeps_select kept node view owner operation i w hs
      have default := closed.default node (mem_nodes found)
      obtain ⟨nonneg, le_one⟩ := selection_between node view owner operation i w.stage
      exact closed.blended _ _ _ (ih selected default) (ih' (first.keeps_swarm kept selected) default) nonneg le_one
  | @gradient i node _ _ w _ _ found _ mode sampled =>
      obtain ⟨nonneg, le_one⟩ := selection_between node view owner operation i w.stage
      exact closed.sampled node (mem_nodes found) _ _ _ mode nonneg le_one sampled

theorem Hereditary.resolveFrom {s : Stage} (closed : t.Hereditary P)
    (referred : ∀ node ∈ t.nodes, ∀ r value, node.mode = .reference r → referred? r view s.swarm = some value →
      P value) : P (t.resolveFrom i view owner operation s).1.value := by
  have h := t.visits_visit view owner operation i t.root.default 0 { stage := s }
  refine h.hereditary closed referred (.refl ?_ s.swarm) (closed.default t.root t.root_mem)
  exact fun _ _ => rfl

/-- What is referred to is a payload of a table, read as a value. -/
theorem exists_payload_of_referred? {r : Reference} {s : Swarm} {value : α}
    (known : referred? r view s = some value) : ∃ payload, ofPayload? payload = some value ∧
      (view.globals.find? r.name = some payload ∨ ∃ p ∈ s.projectiles, p.custom.find? r.name = some payload) := by
  unfold referred? at known
  split at known
  · obtain ⟨payload, found, read⟩ := Option.bind_eq_some_iff.1 known
    exact ⟨payload, read, .inl found⟩
  · obtain ⟨id, -, known⟩ := Option.bind_eq_some_iff.1 known
    obtain ⟨p, ancestor, known⟩ := Option.bind_eq_some_iff.1 known
    obtain ⟨payload, found, read⟩ := Option.bind_eq_some_iff.1 known
    exact ⟨payload, read, .inr ⟨p, Swarm.mem_of_ancestor? ancestor, found⟩⟩

end Tree

namespace Blendable

/-- A blend is one of the two values, and there are no gradients. -/
structure Chooses (α : Type) [Blendable α] : Prop where
  blended : ∀ (x y : α) k, blend x y k = x ∨ blend x y k = y
  unshaded : ∀ gradient k, (ofGradient? gradient k : Option α) = none

theorem switch_eq_or {α : Type} (x y : α) (k : Single) : switch x y k = x ∨ switch x y k = y := by
  unfold switch
  split
  · exact .inl rfl
  · exact .inr rfl

theorem chooses_bool : Chooses Bool := ⟨switch_eq_or, fun _ _ => rfl⟩

theorem chooses_curve : Chooses (Curve Single) := ⟨switch_eq_or, fun _ _ => rfl⟩

theorem chooses_string : Chooses String := ⟨switch_eq_or, fun _ _ => rfl⟩

theorem chooses_assetId : Chooses AssetId := ⟨switch_eq_or, fun _ _ => rfl⟩

end Blendable

namespace Tree

/-- Where blends choose, they keep every property. -/
theorem Hereditary.of_chooses {α : Type} [Blendable α] {t : Tree α} {P : α → Prop} (chooses : Blendable.Chooses α)
    (default : ∀ node ∈ t.nodes, P node.default) : t.Hereditary P where
  default := default
  sampled _ _ gradient k _ _ _ _ sampled := by
    rw [chooses.unshaded] at sampled
    cases sampled
  blended x y k hx hy _ _ := by
    rcases chooses.blended x y k with h | h
    · rwa [h]
    · rwa [h]

/-- A property of all defaults of a tree, of whatever can be read of the global table and of custom tables, and of the
samples of its gradients is a property of the value that the tree resolves to, however broken the tree is, if blends by
numbers in `[0, 1]` keep it. A flag, a curve, a text or an asset is a default of the tree or a parameter that the tree
refers to. -/
theorem resolveFrom_hereditary :
    (∀ {α : Type} [Blendable α] (t : Tree α) (P : α → Prop) (i : NodeIndex) (view : Viewpoint) (owner : Owner)
      (operation : UInt32) (s : Stage), t.Hereditary P →
      (∀ name payload value, view.globals.find? name = some payload → ofPayload? payload = some value → P value) →
      (∀ p ∈ s.swarm.projectiles, ∀ name payload value, p.custom.find? name = some payload →
        ofPayload? payload = some value → P value) →
      P (t.resolveFrom i view owner operation s).1.value) ∧
    (∀ {α : Type} [Blendable α], Blendable.Chooses α → ∀ (t : Tree α) (i : NodeIndex) (view : Viewpoint)
      (owner : Owner) (operation : UInt32) (s : Stage),
      t.Supplies view s.swarm (t.resolveFrom i view owner operation s).1.value) ∧
    Blendable.Chooses Bool ∧ Blendable.Chooses (Curve Single) ∧ Blendable.Chooses String ∧
    Blendable.Chooses AssetId := by
  refine ⟨?_, ?_, Blendable.chooses_bool, Blendable.chooses_curve, Blendable.chooses_string,
    Blendable.chooses_assetId⟩
  · intro α _ t P i view owner operation s closed global custom
    refine closed.resolveFrom fun node _ r value _ known => ?_
    obtain ⟨payload, read, found | ⟨p, hp, found⟩⟩ := exists_payload_of_referred? known
    · exact global r.name payload value found read
    · exact custom p hp r.name payload value found read
  · intro α _ chooses t i view owner operation s
    have supplied : t.Hereditary (t.Supplies view s.swarm) := .of_chooses chooses fun node h => ⟨node, h, .inl rfl⟩
    exact supplied.resolveFrom fun node h r value mode known => ⟨node, h, .inr ⟨r, mode, known⟩⟩

/-- A tree that blends a text of the global table, one of the projectile that it runs on, and itself. -/
def titles : Tree String where
  nodes := #[{ mode := .blend [⟨2⟩, ⟨3⟩, ⟨1⟩], default := "calm" },
    { mode := .reference { holder := .global, name := "title" }, default := "mist" },
    { mode := .reference { holder := .lineage, name := "name" }, default := "rain" }]
  nonempty := by decide

/-- A family whose first projectile has a name. -/
def namedFamily : Swarm :=
  Swarm.family.modify ⟨1⟩ fun p => { p with custom := p.custom.set "name" (.text "gust") }

/-- Whatever is drawn, the text is not empty, and it is supplied. -/
theorem titles_not_empty :
    let view : Viewpoint := { globals := ⟨[("title", .text "storm")]⟩, projectile := some ⟨1⟩ }
    titles.Hereditary (· ≠ "") ∧
    (∀ name payload value, view.globals.find? name = some payload → ofPayload? payload = some value → value ≠ "") ∧
    (∀ p ∈ namedFamily.projectiles, ∀ name payload value, p.custom.find? name = some payload →
      ofPayload? payload = some value → value ≠ "") ∧
    (titles.resolveFrom .root view .bullet 5 { swarm := namedFamily }).1.value ≠ "" ∧
    titles.Supplies view namedFamily (titles.resolveFrom .root view .bullet 5 { swarm := namedFamily }).1.value := by
  intro view
  have closed : titles.Hereditary (· ≠ "") := .of_chooses Blendable.chooses_string (by decide)
  have global : ∀ name payload (value : String), view.globals.find? name = some payload →
      ofPayload? payload = some value → value ≠ "" := by
    intro name payload value found read
    obtain ⟨rfl, rfl⟩ := Prod.mk.inj (List.mem_singleton.1 (Blackboard.mem_of_find? found))
    obtain rfl := Option.some.inj read
    decide
  have custom : ∀ p ∈ namedFamily.projectiles, ∀ name payload (value : String),
      p.custom.find? name = some payload → ofPayload? payload = some value → value ≠ "" := by
    intro p hp name payload value found read
    have entries : ∀ p ∈ namedFamily.projectiles, ∀ e ∈ p.custom.entries, e = ("name", .text "gust") := by
      decide +kernel
    obtain ⟨rfl, rfl⟩ := Prod.mk.inj (entries p hp _ (Blackboard.mem_of_find? found))
    obtain rfl := Option.some.inj read
    decide
  exact ⟨closed, global, custom,
    resolveFrom_hereditary.1 titles (· ≠ "") .root view .bullet 5 { swarm := namedFamily } closed global custom,
    resolveFrom_hereditary.2.1 Blendable.chooses_string titles .root view .bullet 5 { swarm := namedFamily }⟩

end Tree

end Danmaku
