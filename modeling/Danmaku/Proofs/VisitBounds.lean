import Danmaku.Proofs.Visits

/-! What a resolution can cost. Only a node that is entered asks for visits, for two at most, and the nodes that are
entered are bounded over all branches together. So the visits are bounded too, and with them the fallbacks, however
many ways there are through the tree. -/

namespace Danmaku.Tree

variable {α : Type}

namespace Walk

/-- How many fallbacks of a walk are refusals. -/
def refusals (w : Walk) : Nat := w.fallbacks.countP Fallback.isRefusal

/-- From the one walk to the other, there were so many calls, and so many of them entered a node. -/
structure Spends (calls entered : Nat) (w w' : Walk) : Prop where
  visited : w'.visited.size = w.visited.size + entered
  refusals : w'.refusals + entered = w.refusals + calls
  calls_le : calls ≤ 2 * entered + 1
  fallbacks_le : w'.fallbacks.size ≤ w.fallbacks.size + entered + 1

instance (w : Walk) (i : NodeIndex) (depth : Nat) : Decidable (w.Admits i depth) :=
  decidable_of_iff (i ∉ w.path ∧ depth ≤ maxDepth ∧ w.visited.size < maxVisits)
    ⟨fun ⟨fresh, depth_le, visits_lt⟩ => ⟨fresh, depth_le, visits_lt⟩, fun h => ⟨h.fresh, h.depth_le, h.visits_lt⟩⟩

section

variable {w w' w'' : Walk} {s : Stage} {i : NodeIndex} {f : Fallback} {m n m' n' : Nat}

theorem refusals_fallBack (w : Walk) (f : Fallback) :
    (w.fallBack f).refusals = w.refusals + if f.isRefusal then 1 else 0 := Array.countP_push

theorem Spends.refused (refusal : f.isRefusal = true) : Spends 1 0 w (w.fallBack f) where
  visited := rfl
  refusals := by rw [refusals_fallBack, if_pos refusal]
  calls_le := Nat.le_refl 1
  fallbacks_le := Nat.le_of_eq (Array.size_push _)

theorem Spends.nothing (w : Walk) : Spends 0 0 w w := ⟨rfl, rfl, Nat.zero_le 1, Nat.le_succ _⟩

/-- A node that is entered can fall back by itself, if it asks for no visit. -/
theorem Spends.fallBack (entered : f.isRefusal = false) : Spends 0 0 w (w.fallBack f) where
  visited := rfl
  refusals := by rw [refusals_fallBack, if_neg (by simp [entered])]
  calls_le := Nat.zero_le 1
  fallbacks_le := Nat.le_of_eq (Array.size_push _)

/-- What is spent below a node that is entered, with the call that entered it. -/
theorem Spends.both (h : Spends m n { w.enter i with stage := s } w') (h' : Spends m' n' w' w'') :
    Spends (m + m' + 1) (n + n' + 1) w w''.leave := by
  obtain ⟨visited, refusals, calls_le, fallbacks_le⟩ := h
  obtain ⟨visited', refusals', calls_le', fallbacks_le'⟩ := h'
  have entered : (w.enter i).visited.size = w.visited.size + 1 := Array.size_push i
  change w'.visited.size = (w.enter i).visited.size + n at visited
  change w'.refusals + n = w.refusals + m at refusals
  change w'.fallbacks.size ≤ w.fallbacks.size + n + 1 at fallbacks_le
  refine ⟨?_, ?_, by omega, ?_⟩
  · change w''.visited.size = _
    omega
  · change w''.refusals + _ = _
    omega
  · change w''.fallbacks.size ≤ _
    omega

theorem Spends.under (h : Spends m n { w.enter i with stage := s } w') : Spends (m + 1) (n + 1) w w'.leave :=
  h.both (.nothing w')

end

end Walk

variable [Blendable α]

/-- How often a visit comes to a node, entered or refused: once itself, and as often as the visits that its node asks
for. -/
def calls (t : Tree α) (view : Viewpoint) (owner : Owner) (operation : UInt32) (i : NodeIndex) (depth : Nat)
    (w : Walk) : Nat :=
  match t.node? i with
  | none => 1
  | some node =>
    if _ : w.Admits i depth then
      let inside := w.select node view owner operation i
      match node.mode with
      | .between source target =>
        let x := t.visit view owner operation source node.default (depth + 1) inside
        t.calls view owner operation source (depth + 1) inside +
          t.calls view owner operation target (depth + 1) x.2 + 1
      | .blend (first :: others) =>
        let child := t.pickChild first others (selection node view owner operation i w.stage).1
        t.calls view owner operation child (depth + 1) inside + 1
      | _ => 1
    else 1
termination_by maxDepth + 1 - depth
decreasing_by
  all_goals
    have := (‹w.Admits i depth›).depth_le
    omega

variable {t : Tree α} {view : Viewpoint} {owner : Owner} {operation : UInt32} {i : NodeIndex} {node : Node α}
  {above : α} {depth : Nat} {w : Walk} {r : α × Walk}

theorem calls_of_dangling (missing : t.node? i = none) : t.calls view owner operation i depth w = 1 := by
  rw [calls, missing]

theorem calls_of_refused (found : t.node? i = some node) (closed : ¬w.Admits i depth) :
    t.calls view owner operation i depth w = 1 := by
  rw [calls, found]
  exact dif_neg closed

theorem calls_of_admits (found : t.node? i = some node) (admits : w.Admits i depth) :
    t.calls view owner operation i depth w =
      match node.mode with
      | .between source target =>
        t.calls view owner operation source (depth + 1) (w.select node view owner operation i) +
          t.calls view owner operation target (depth + 1)
            (t.visit view owner operation source node.default (depth + 1) (w.select node view owner operation i)).2 + 1
      | .blend (first :: others) =>
        t.calls view owner operation
          (t.pickChild first others (selection node view owner operation i w.stage).1) (depth + 1)
          (w.select node view owner operation i) + 1
      | _ => 1 := by
  rw [calls, found]
  exact dif_pos admits

theorem Visits.spends (h : t.Visits view owner operation i above depth w r) :
    ∃ n, Walk.Spends (t.calls view owner operation i depth w) n w r.2 := by
  induction h with
  | dangling missing =>
      rw [calls_of_dangling missing]
      exact ⟨0, .refused rfl⟩
  | refused found closed =>
      rw [calls_of_refused found closed]
      exact ⟨0, .refused (Walk.isRefusal_refusal _ _ _)⟩
  | @fixed i node above depth w found admits mode | @reference i node above depth w _ _ found admits mode =>
      rw [calls_of_admits found admits, mode]
      exact ⟨1, .under (.nothing (w.enter i))⟩
  | @unreferred i node above depth w _ found admits mode | @childless i node above depth w found admits mode =>
      rw [calls_of_admits found admits, mode]
      exact ⟨1, .under (.fallBack (w := w.enter i) rfl)⟩
  | blend found admits mode chosen ih =>
      obtain ⟨n, child⟩ := ih
      rw [calls_of_admits found admits, mode]
      exact ⟨n + 1, child.under⟩
  | between found admits mode first second ih ih' =>
      obtain ⟨n, source⟩ := ih
      obtain ⟨n', target⟩ := ih'
      rw [calls_of_admits found admits, mode]
      dsimp only
      rw [first.eq_visit]
      exact ⟨n + n' + 1, source.both target⟩
  | gradient found admits mode sampled =>
      rw [calls_of_admits found admits, mode]
      exact ⟨1, .under (.nothing _)⟩
  | unshaded found admits mode unsupported =>
      rw [calls_of_admits found admits, mode]
      exact ⟨1, .under (.fallBack rfl)⟩

/-- Whoever asks, no more nodes are entered than may be. -/
theorem Visits.visited_le (h : t.Visits view owner operation i above depth w r) (hw : w.visited.size ≤ maxVisits) :
    r.2.visited.size ≤ maxVisits := by
  refine h.keeps (P := fun w => w.visited.size ≤ maxVisits) (fun _ _ h => h) (fun w i _ admits _ => ?_)
    (fun _ h => h) (fun w node i _ admits _ => ?_) hw
  · exact Nat.le_trans (Nat.le_of_eq (Array.size_push i)) admits.visits_lt
  · exact Nat.le_trans (Nat.le_of_eq Walk.size_visited_select) admits.visits_lt

/-- A resolution enters at most 4096 nodes, calls for at most 8193 visits, the refused ones among them, and falls back
at most 4097 times, whatever the tree. When it is done its path is empty again. -/
theorem resolveFrom_bounds (t : Tree α) (i : NodeIndex) (view : Viewpoint) (owner : Owner) (operation : UInt32)
    (s : Stage) :
    let r := (t.resolveFrom i view owner operation s).1
    let calls := t.calls view owner operation i 0 { stage := s }
    r.visited.size ≤ 4096 ∧ calls ≤ 8193 ∧ calls = r.calls ∧ r.fallbacks.size ≤ 4097 ∧
    (t.visit view owner operation i t.root.default 0 { stage := s }).2.path = [] := by
  intro r calls
  have h := t.visits_visit view owner operation i t.root.default 0 { stage := s }
  have visited_le : r.visited.size ≤ 4096 := h.visited_le (Nat.zero_le maxVisits)
  obtain ⟨n, visited, refusals, calls_le, fallbacks_le⟩ := h.spends
  change r.visited.size = 0 + n at visited
  change r.fallbacks.countP Fallback.isRefusal + n = 0 + calls at refusals
  change calls ≤ 2 * n + 1 at calls_le
  change r.fallbacks.size ≤ 0 + n + 1 at fallbacks_le
  refine ⟨visited_le, by omega, ?_, by omega, h.path⟩
  rw [Resolution.calls]
  omega

end Danmaku.Tree
