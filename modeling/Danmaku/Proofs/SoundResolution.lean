import Danmaku.Proofs.Defects
import Danmaku.Proofs.Visits

/-! Resolution of a tree without defects. The nodes on the path of a resolution lead to the node that it comes
to, so in a tree where no way leads back it never meets its own path; and where links lead to nodes and no
blend is of nothing, neither can be missed. The fallbacks that are left depend on what a resolution reads and
on its bounds. -/

namespace Danmaku

/-- The fallbacks that are due to the links of a tree. -/
def Fallback.isDefect : Fallback → Bool
  | danglingIndex _ | emptyBlend _ | cycle _ => true
  | missingReference .. | unsupportedGradient _ | depthExceeded _ | visitsExceeded _ => false

namespace Tree

variable {α : Type} {t : Tree α}

theorem reachShare_mem {share : NodeIndex → Single} {selector sum : Single} {children : List NodeIndex}
    {child : NodeIndex} (h : reachShare share selector sum children = some child) : child ∈ children := by
  induction children generalizing sum with
  | nil => cases h
  | cons first children ih =>
      unfold reachShare at h
      split at h
      · obtain rfl := Option.some.inj h
        exact List.mem_cons_self
      · exact List.mem_cons_of_mem _ (ih h)

/-- Whatever the selector and the weights are, one of the children is picked. -/
theorem pickChild_mem (t : Tree α) (first : NodeIndex) (others : List NodeIndex) (selector : Single) :
    t.pickChild first others selector ∈ first :: others := by
  have last_mem : others.getLast?.getD first ∈ first :: others := by
    cases hl : others.getLast? with
    | none => exact List.mem_cons_self
    | some last => exact List.mem_cons_of_mem _ (List.mem_of_getLast? hl)
  unfold pickChild
  dsimp only
  split
  · exact List.mem_cons_self
  · split
    · exact last_mem
    · generalize hr : reachShare _ selector 0 (first :: others) = reached
      cases reached with
      | none => exact last_mem
      | some child => exact reachShare_mem hr

/-- No fallback so far is due to the links. -/
def Walk.Clean (w : Walk) : Prop := ∀ f ∈ w.fallbacks, f.isDefect = false

theorem Walk.Clean.fallBack {w : Walk} (h : w.Clean) {f : Fallback} (hf : f.isDefect = false) :
    (w.fallBack f).Clean := by
  intro g hg
  rcases Array.mem_push.1 hg with hg | rfl
  · exact h g hg
  · exact hf

variable [Blendable α] {view : Viewpoint} {owner : Owner} {operation : UInt32}

/-- In a sound tree, a node that the path leads to is not on it, so it can only be refused for a bound. -/
theorem visit_refused (sound : t.Sound) {i : NodeIndex} {node : Node α} (above : α) {depth : Nat} {w : Walk}
    (found : t.node? i = some node) (leads : ∀ j ∈ w.path, Relation.TransGen t.Link j i)
    (refused : ¬w.Admits i depth) :
    ∃ f, t.visit view owner operation i above depth w = (node.default, w.fallBack f) ∧
      (f = .depthExceeded i ∨ f = .visitsExceeded i) := by
  have fresh : i ∉ w.path := fun hi => sound.acyclic i (leads i hi)
  refine ⟨_, visit_of_refused above found refused, ?_⟩
  rw [Walk.refusal, if_neg fresh]
  split
  · exact Or.inl rfl
  · exact Or.inr rfl

theorem clean_visit (sound : t.Sound) (view : Viewpoint) (owner : Owner) (operation : UInt32) (i : NodeIndex)
    (above : α) (depth : Nat) (w : Walk) (hi : (t.node? i).isSome)
    (leads : ∀ j ∈ w.path, Relation.TransGen t.Link j i) (clean : w.Clean) :
    (t.visit view owner operation i above depth w).2.Clean := by
  obtain ⟨node, found⟩ := Option.isSome_iff_exists.1 hi
  by_cases admits : w.Admits i depth
  · have hdepth := admits.depth_le
    -- A node that this one links to is there, and the path with this node leads to it.
    have below (child : NodeIndex) (hc : child ∈ node.mode.links) (w' : Walk) (hpath : w'.path = i :: w.path)
        (clean' : w'.Clean) :
        (t.visit view owner operation child node.default (depth + 1) w').2.Clean := by
      have hl : t.Link i child := (mem_links found).2 hc
      refine clean_visit sound view owner operation child node.default (depth + 1) w' (sound.linked i child hl)
        (fun j hj => ?_) clean'
      rw [hpath] at hj
      rcases List.mem_cons.1 hj with rfl | hj
      · exact .single hl
      · exact (leads j hj).tail hl
    rw [visit_of_admits found admits]
    cases mode : node.mode with
    | fixed => exact clean
    | reference r =>
        dsimp only
        cases (referred? r view w.stage.swarm : Option α) with
        | none => exact Walk.Clean.fallBack (w := w.enter i) clean rfl
        | some value => exact clean
    | gradient gradient =>
        dsimp only
        cases (ofGradient? gradient (selection node view owner operation i w.stage).1 : Option α) with
        | none => exact Walk.Clean.fallBack (w := w.select node view owner operation i) clean rfl
        | some value => exact clean
    | blend children =>
        cases children with
        | nil => exact absurd mode (sound.filled i node found)
        | cons first others =>
            refine below _ ?_ _ rfl clean
            rw [mode]
            exact pickChild_mem t first others _
    | between source target =>
        rw [mode] at below
        refine below target (List.mem_cons_of_mem _ List.mem_cons_self) _ (visits_visit ..).path ?_
        exact below source List.mem_cons_self _ rfl clean
  · obtain ⟨f, hf, hkind⟩ := visit_refused sound above found leads admits
    rw [hf]
    rcases hkind with rfl | rfl
    · exact clean.fallBack rfl
    · exact clean.fallBack rfl
termination_by maxDepth + 1 - depth

/-- A resolution of a tree without defects falls back only for a reference that is not there or reads as
something else, for a gradient of a type that has none, and at its bounds. -/
theorem fallbacks_of_defects_eq_nil (t : Tree α) (h : t.defects = []) (i : NodeIndex)
    (hi : (t.node? i).isSome) (view : Viewpoint) (owner : Owner) (operation : UInt32) (s : Stage) :
    ∀ f ∈ (t.resolveFrom i view owner operation s).1.fallbacks,
      (∃ j name, f = .missingReference j name) ∨ (∃ j, f = .unsupportedGradient j) ∨
        (∃ j, f = .depthExceeded j) ∨ ∃ j, f = .visitsExceeded j := by
  intro f hf
  have clean : (t.visit view owner operation i t.root.default 0 { stage := s }).2.Clean :=
    clean_visit (sound_of_defects_eq_nil h) view owner operation i t.root.default 0 { stage := s } hi
      (fun j hj => absurd hj List.not_mem_nil) fun g hg => absurd hg (Array.not_mem_empty g)
  have hdefect : f.isDefect = false := clean f hf
  cases f with
  | missingReference j name => exact Or.inl ⟨j, name, rfl⟩
  | unsupportedGradient j => exact Or.inr (Or.inl ⟨j, rfl⟩)
  | depthExceeded j => exact Or.inr (Or.inr (Or.inl ⟨j, rfl⟩))
  | visitsExceeded j => exact Or.inr (Or.inr (Or.inr ⟨j, rfl⟩))
  | _ => cases hdefect

/-- Two blends that share a reference. -/
def sharedReference : Tree Single where
  nodes := #[{ mode := .between ⟨2⟩ ⟨3⟩, default := 0 }, { mode := .blend [⟨4⟩], default := 0 },
    { mode := .blend [⟨4⟩], default := 0 },
    { mode := .reference { holder := .global, name := "rank" }, default := 1 }]
  nonempty := by simp

theorem walk_sharedReference : sharedReference.walk sharedReference.indices [] = [] := by
  have indices : sharedReference.indices = [⟨1⟩, ⟨2⟩, ⟨3⟩, ⟨4⟩] := by decide
  rw [indices]
  simp [walk, sharedReference, links, node?, Node.Mode.links]

theorem defects_sharedReference : sharedReference.defects = [] :=
  List.append_eq_nil_iff.2 ⟨rfl, walk_sharedReference⟩

/-- The reference is missed on both ways to it, and nothing else is. -/
theorem fallbacks_of_sharedReference :
    let r := sharedReference.resolveFrom .root {} .pattern 7 { swarm := .ofSeed 0 }
    sharedReference.defects = [] ∧ (sharedReference.node? .root).isSome ∧
      r.1.fallbacks = #[.missingReference ⟨4⟩ "rank", .missingReference ⟨4⟩ "rank"] ∧
      ∀ f ∈ r.1.fallbacks, (∃ j name, f = .missingReference j name) ∨ (∃ j, f = .unsupportedGradient j) ∨
        (∃ j, f = .depthExceeded j) ∨ ∃ j, f = .visitsExceeded j := by
  refine ⟨defects_sharedReference, rfl, ?_,
    fallbacks_of_defects_eq_nil sharedReference defects_sharedReference .root rfl {} .pattern 7 _⟩
  simp [resolveFrom, visit, sharedReference, node?, NodeIndex.root, Walk.enter, Walk.leave, Walk.fallBack,
    maxDepth, maxVisits, referred?, pickChild, Blackboard.get?, Blackboard.find?]

end Tree

end Danmaku
