import Danmaku.Tree.Resolve
import Danmaku.Proofs.SingleArithmetic

/-! The choice among the children of a blend. The children are walked in order, and the first one whose share brings the
sum of shares up to the selector is picked, so a greater selector does not pick an earlier child. A child without weight
has no share and brings the sum nowhere. It can be picked all the same: at the end of the walk the last child is, where
the sum of all shares is rounded, or overflows its total, to below the selector. -/

namespace Danmaku

theorem Single.foldl_add_le {xs : List Single} {sum : Single} (hsum : 0 ≤ sum) (hxs : ∀ x ∈ xs, 0 ≤ x) :
    sum ≤ xs.foldl (· + ·) sum ∧ ∀ x ∈ xs, x ≤ xs.foldl (· + ·) sum := by
  induction xs generalizing sum with
  | nil =>
      have number := (isNaN_of_le hsum).2
      exact ⟨le_of_not_lt number number (lt_irrefl sum), nofun⟩
  | cons x xs ih =>
      rw [List.forall_mem_cons] at hxs
      obtain ⟨sum_le, x_le⟩ := le_add hsum hxs.1
      obtain ⟨le, each⟩ := ih (le_trans hsum sum_le) hxs.2
      exact ⟨le_trans sum_le le, List.forall_mem_cons.2 ⟨le_trans x_le le, each⟩⟩

namespace Tree

variable {α : Type}

/-! The walk over the children. -/

section

variable {share : NodeIndex → Single} {s s' sum : Single} {children : List NodeIndex}

/-- The number of children that are passed until the sum of shares reaches the selector. -/
def reachPlace (share : NodeIndex → Single) (selector : Single) : Single → List NodeIndex → ℕ
  | _, [] => 0
  | sum, child :: children =>
    if selector ≤ sum + share child then 0 else reachPlace share selector (sum + share child) children + 1

theorem getElem?_reachPlace : children[reachPlace share s sum children]? = reachShare share s sum children := by
  induction children generalizing sum with
  | nil => rfl
  | cons child children ih =>
      rw [reachPlace, reachShare]
      split
      · rfl
      · exact ih

theorem reachPlace_mono (h : s ≤ s') : reachPlace share s sum children ≤ reachPlace share s' sum children := by
  induction children generalizing sum with
  | nil => exact le_rfl
  | cons child children ih =>
      rw [reachPlace, reachPlace]
      by_cases reached : s' ≤ sum + share child
      · rw [if_pos (Single.le_trans h reached)]
        exact Nat.zero_le _
      · rw [if_neg reached]
        split
        · exact Nat.zero_le _
        · exact Nat.succ_le_succ ih

/-- The sum of all shares does not fall behind the sum at the child that is reached. -/
theorem le_foldl_of_reachShare {child : NodeIndex} (h : reachShare share s sum children = some child) (hsum : 0 ≤ sum)
    (nonneg : ∀ c ∈ children, 0 ≤ share c) : s ≤ (children.map share).foldl (· + ·) sum := by
  induction children generalizing sum with
  | nil => cases h
  | cons first children ih =>
      rw [List.forall_mem_cons] at nonneg
      have next := Single.le_trans hsum (Single.le_add hsum nonneg.1).1
      rw [List.map_cons, List.foldl_cons]
      rw [reachShare] at h
      split at h
      · rename_i reached
        exact Single.le_trans reached (Single.foldl_add_le next (List.forall_mem_map.2 nonneg.2)).1
      · exact ih h next nonneg.2

theorem not_le_foldl_of_reachShare (h : reachShare share s sum children = none) (above : ¬s ≤ sum) :
    ¬s ≤ (children.map share).foldl (· + ·) sum := by
  induction children generalizing sum with
  | nil => exact above
  | cons first children ih =>
      rw [reachShare] at h
      split at h
      · cases h
      · rename_i unreached
        exact ih h unreached

end

/-! The pick. -/

/-- The sum of the weights. -/
def totalShare (t : Tree α) (children : List NodeIndex) : Single := (children.map t.share).foldl (· + ·) 0

/-- The share of a child in the total. -/
def portion (t : Tree α) (children : List NodeIndex) (child : NodeIndex) : Single :=
  if 0 < t.totalShare children then t.share child / t.totalShare children else 1 / .ofNat children.length

/-- The place of the child that is picked, from `0`. -/
def pickPlace (t : Tree α) (first : NodeIndex) (others : List NodeIndex) (selector : Single) : ℕ :=
  if others.isEmpty ∨ selector ≤ 0 then 0
  else if 1 ≤ selector then others.length
  else min (reachPlace (t.portion (first :: others)) selector 0 (first :: others)) others.length

variable {t : Tree α} {first : NodeIndex} {others : List NodeIndex} {s s' : Single}

theorem pickChild_of_le_zero (h : others.isEmpty ∨ s ≤ 0) : t.pickChild first others s = first := if_pos h

theorem pickChild_of_one_le (h : ¬(others.isEmpty ∨ s ≤ 0)) (last : 1 ≤ s) :
    t.pickChild first others s = others.getLast?.getD first :=
  (if_neg h).trans (if_pos last)

theorem pickChild_of_between (h : ¬(others.isEmpty ∨ s ≤ 0)) (below : ¬1 ≤ s) :
    t.pickChild first others s =
      (reachShare (t.portion (first :: others)) s 0 (first :: others)).getD (others.getLast?.getD first) :=
  (if_neg h).trans (if_neg below)

theorem getElem?_last : (first :: others)[others.length]? = some (others.getLast?.getD first) := by
  rw [← List.getLast?_cons, List.getLast?_eq_getElem?]
  rfl

theorem getElem?_pickPlace :
    (first :: others)[t.pickPlace first others s]? = some (t.pickChild first others s) := by
  rw [pickPlace]
  split
  · rename_i h
    rw [pickChild_of_le_zero h]
    rfl
  · rename_i h
    split
    · rename_i last
      rw [pickChild_of_one_le h last]
      exact getElem?_last
    · rename_i below
      rw [pickChild_of_between h below, ← getElem?_reachPlace]
      by_cases passed : reachPlace (t.portion (first :: others)) s 0 (first :: others) < (first :: others).length
      · rw [min_eq_left (Nat.lt_succ_iff.1 passed), List.getElem?_eq_getElem passed]
        rfl
      · have passed := Nat.not_lt.1 passed
        rw [min_eq_right (Nat.le_of_succ_le passed), List.getElem?_eq_none passed]
        exact getElem?_last

theorem pickPlace_le : t.pickPlace first others s ≤ others.length := by
  rw [pickPlace]
  split
  · exact Nat.zero_le _
  · split
    · exact le_rfl
    · exact min_le_right _ _

theorem pickPlace_of_le_zero (h : others.isEmpty ∨ s ≤ 0) : t.pickPlace first others s = 0 := if_pos h

theorem pickPlace_of_one_le (several : others ≠ []) (last : 1 ≤ s) : t.pickPlace first others s = others.length := by
  refine (if_neg (not_or.2 ⟨fun h => several (List.isEmpty_iff.1 h), fun h => ?_⟩)).trans (if_pos last)
  exact absurd (Single.le_trans last h) (by decide)

theorem pickPlace_mono (h : s ≤ s') : t.pickPlace first others s ≤ t.pickPlace first others s' := by
  by_cases early : others.isEmpty ∨ s ≤ 0
  · rw [pickPlace_of_le_zero early]
    exact Nat.zero_le _
  · obtain ⟨several, above⟩ := not_or.1 early
    by_cases late : 1 ≤ s'
    · rw [pickPlace_of_one_le (fun h => several (List.isEmpty_iff.2 h)) late]
      exact pickPlace_le
    · have early' : ¬(others.isEmpty ∨ s' ≤ 0) := not_or.2 ⟨several, fun h' => above (Single.le_trans h h')⟩
      have late' : ¬1 ≤ s := fun h' => late (Single.le_trans h' h)
      rw [pickPlace, if_neg early, if_neg late', pickPlace, if_neg early', if_neg late]
      exact min_le_min_right _ (reachPlace_mono h)

/-- The pick is one of the children, the first or the last one at the ends of the selector, and for a greater selector
not an earlier one. -/
theorem pickChild_monotone (t : Tree α) (first : NodeIndex) (others : List NodeIndex) (s : Single) :
    (first :: others)[t.pickPlace first others s]? = some (t.pickChild first others s) ∧
    (s ≤ 0 ∨ others = [] → t.pickPlace first others s = 0) ∧
    (1 ≤ s → others ≠ [] → t.pickPlace first others s = others.length) ∧
    ∀ s', s ≤ s' → t.pickPlace first others s ≤ t.pickPlace first others s' :=
  ⟨getElem?_pickPlace, fun h => pickPlace_of_le_zero (h.symm.imp_left List.isEmpty_iff.2),
    fun last several => pickPlace_of_one_le several last, fun _ => pickPlace_mono⟩

/-- A blend of two children, one of which has three times the weight of the other. -/
def uneven : Tree Single := .blend 0 [(10, 1), (20, 3)] .random

theorem uneven_picks_later : (0.25 : Single) ≤ 0.5 ∧
    uneven.pickPlace ⟨2⟩ [⟨3⟩] 0.25 ≤ uneven.pickPlace ⟨2⟩ [⟨3⟩] 0.5 := by
  have le : (0.25 : Single) ≤ 0.5 := by decide +kernel
  exact ⟨le, (pickChild_monotone uneven ⟨2⟩ [⟨3⟩] 0.25).2.2.2 0.5 le⟩

/-! The weight of the pick. -/

/-- The child exists and its weight is positive and finite. -/
def Weighted (t : Tree α) (child : NodeIndex) : Prop :=
  ∃ node, t.node? child = some node ∧ 0 < node.weight ∧ node.weight.isFinite = true

variable {child : NodeIndex} {children : List NodeIndex}

theorem share_of_weighted (h : t.Weighted child) : 0 < t.share child ∧ (t.share child).isFinite = true := by
  obtain ⟨node, some, pos, finite⟩ := h
  rw [share, some]
  dsimp only
  rw [Single.raisedTo, if_pos pos, if_pos finite]
  exact ⟨pos, finite⟩

theorem share_of_not_weighted (h : ¬t.Weighted child) : t.share child = 0 := by
  rw [share]
  split
  · rename_i node some
    dsimp only
    rw [Single.raisedTo]
    by_cases pos : 0 < node.weight
    · rw [if_pos pos]
      split
      · rename_i finite
        exact absurd ⟨node, some, pos, finite⟩ h
      · rfl
    · rw [if_neg pos]
      rfl
  · rfl

theorem zero_le_share : 0 ≤ t.share child := by
  by_cases h : t.Weighted child
  · exact Single.zero_le_of_pos (share_of_weighted h).1
  · rw [share_of_not_weighted h]
    decide

theorem totalShare_pos (h : ∃ c ∈ children, t.Weighted c) : 0 < t.totalShare children := by
  obtain ⟨c, mem, weighted⟩ := h
  have pos := (share_of_weighted weighted).1
  have le : t.share c ≤ t.totalShare children :=
    (Single.foldl_add_le (by decide) (List.forall_mem_map.2 fun _ _ => zero_le_share)).2 _ (List.mem_map_of_mem mem)
  rw [Single.lt_iff_not_le rfl (Single.isNaN_of_le le).2]
  exact fun h => Single.not_le_of_lt pos (Single.le_trans le h)

section

variable (total : 0 < t.totalShare children)

include total

theorem portion_of_not_weighted (h : ¬t.Weighted child) : t.portion children child = 0 := by
  rw [portion, if_pos total, share_of_not_weighted h, Single.zero_div_eq total]

theorem zero_le_portion : 0 ≤ t.portion children child := by
  by_cases h : t.Weighted child
  · rw [portion, if_pos total]
    exact Single.zero_le_div (share_of_weighted h).2 (share_of_weighted h).1 total
  · rw [portion_of_not_weighted total h]
    decide

end

/-- A share of zero does not bring the sum to the selector. -/
theorem weighted_of_reachShare {share : NodeIndex → Single} {sum : Single}
    (unweighted : ∀ c, ¬t.Weighted c → share c = 0) (h : reachShare share s sum children = some child)
    (above : ¬s ≤ sum) : t.Weighted child := by
  induction children generalizing sum with
  | nil => cases h
  | cons first children ih =>
      rw [reachShare] at h
      split at h
      · rename_i reached
        obtain rfl := Option.some.inj h
        by_contra none
        rw [unweighted first none] at reached
        exact above (Single.le_of_le_add_zero reached)
      · rename_i unreached
        exact ih h unreached

/-- Between the ends of the selector, the pick has weight exactly if the last child has, or if the shares add up to
the selector. -/
theorem weighted_pickChild_iff (several : others ≠ []) (weighted : ∃ c ∈ first :: others, t.Weighted c) (pos : 0 < s)
    (below : s < 1) : t.Weighted (t.pickChild first others s) ↔ t.Weighted (others.getLast several) ∨
      s ≤ ((first :: others).map (t.portion (first :: others))).foldl (· + ·) 0 := by
  have total := totalShare_pos weighted
  have above : ¬s ≤ 0 := Single.not_le_of_lt pos
  have inner : ¬(others.isEmpty ∨ s ≤ 0) := not_or.2 ⟨fun h => several (List.isEmpty_iff.1 h), above⟩
  rw [pickChild_of_between inner (Single.not_le_of_lt below), List.getLast?_eq_some_getLast several]
  cases reached : reachShare (t.portion (first :: others)) s 0 (first :: others) with
  | some child =>
      refine iff_of_true (weighted_of_reachShare (fun c => portion_of_not_weighted total) reached above) (.inr ?_)
      exact le_foldl_of_reachShare reached (by decide) fun c _ => zero_le_portion total
  | none =>
      have short := not_le_foldl_of_reachShare reached above
      exact (or_iff_left short).symm

theorem uneven_pick_weighted : uneven.Weighted (uneven.pickChild ⟨2⟩ [⟨3⟩] 0.5) := by
  have second : uneven.Weighted ⟨3⟩ := ⟨_, rfl, by decide, by decide⟩
  exact (weighted_pickChild_iff (by decide) ⟨⟨3⟩, by decide, second⟩ (by decide +kernel) (by decide +kernel)).2
    (.inl second)

/-- A blend whose total is too large for a single, so that all shares are zero. Its last child has no weight. -/
def overflowing : Tree Single := .blend 0 [(10, 3e38), (20, 3e38), (30, 0)] .random

theorem overflowing_pick_unweighted : overflowing.Weighted ⟨2⟩ ∧ (0 : Single) < 0.25 ∧ (0.25 : Single) < 1 ∧
    ¬overflowing.Weighted (overflowing.pickChild ⟨2⟩ [⟨3⟩, ⟨4⟩] 0.25) := by
  have last : overflowing.pickChild ⟨2⟩ [⟨3⟩, ⟨4⟩] 0.25 = ⟨4⟩ := by decide +kernel
  refine ⟨⟨_, rfl, by decide +kernel, by decide +kernel⟩, by decide +kernel, by decide +kernel, ?_⟩
  rw [last]
  rintro ⟨node, some, pos, -⟩
  cases some
  exact absurd pos (by decide)

/-- Twelve equal shares are rounded to a sum below one. -/
example : (Tree.blend (0 : Single) (List.replicate 12 (10, 1) ++ [(20, 0)]) .random).pickChild ⟨2⟩
    ((List.range 12).map fun i => .ofPosition (i + 2)) (.ofBits 0x3f7fffff) = ⟨14⟩ := by
  decide +kernel

end Tree

end Danmaku
