import Mathlib.Algebra.Order.Ring.Rat
import Mathlib.Data.Prod.Lex
import Danmaku.Proofs.Unselected

/-! Ranks along an axis. A layout ranks the selected bullets by a coordinate, and those with one value by their order in
the shot. The rank of a bullet is the number of selected bullets before it, so each rank is taken once. -/

namespace Danmaku

/-- Sorting is stable: of two items that compare equal, the one that is given first comes first. -/
theorem Sorting.pairwise_sort_of_ascending {le : Nat → Nat → Bool} {l : List Nat}
    (trans : ∀ a b c, le a b = true → le b c = true → le a c = true) (total : ∀ a b, (le a b || le b a) = true)
    (ascending : l.Pairwise (· < ·)) :
    (sort le l).Pairwise fun a b => le a b = true ∧ (le b a = true → a < b) := by
  have numbered : (l.zipIdx.mergeSort (List.zipIdxLE le)).Pairwise fun p q => List.zipIdxLE le p q = true :=
    List.pairwise_mergeSort (List.zipIdxLE_trans trans) (List.zipIdxLE_total total) _
  have weak : (sort le l).Pairwise fun a b => le a b = true ∧ (le b a = true → a ≤ b) := by
    rw [sort_eq_mergeSort trans, ← List.mergeSort_zipIdx, List.pairwise_map]
    refine numbered.imp_of_mem fun {p q} hp hq h => ?_
    rw [List.zipIdxLE] at h
    split at h
    · refine ⟨‹_›, fun back => ?_⟩
      rw [if_pos back, decide_eq_true_eq] at h
      have first : l[p.2]? = some p.1 := List.mk_mem_zipIdx_iff_getElem?.1 (List.mem_mergeSort.1 hp)
      have second : l[q.2]? = some q.1 := List.mk_mem_zipIdx_iff_getElem?.1 (List.mem_mergeSort.1 hq)
      obtain ⟨hp, first⟩ := List.getElem?_eq_some_iff.1 first
      obtain ⟨hq, second⟩ := List.getElem?_eq_some_iff.1 second
      rcases h.eq_or_lt with same | lt
      · simp only [← first, ← second, same, le_refl]
      · rw [← first, ← second]
        exact (List.pairwise_iff_getElem.1 ascending p.2 q.2 hp hq lt).le
    · cases h
  have distinct : (sort le l).Nodup := (perm_sort le l).nodup_iff.2 (ascending.imp fun h => h.ne)
  refine (weak.and distinct).imp fun h => ⟨h.1.1, fun back => ?_⟩
  exact lt_of_le_of_ne (h.1.2 back) h.2

/-- In a list that ascends by its keys, an item is after as many items as its place says. -/
theorem countP_lt_getElem {β κ : Type} [LinearOrder κ] {key : β → κ} {l : List β}
    (sorted : l.Pairwise fun a b => key a < key b) {k : Nat} (hk : k < l.length) :
    l.countP (fun a => decide (key a < key l[k])) = k := by
  induction l generalizing k with
  | nil => exact absurd hk (Nat.not_lt_zero k)
  | cons a l ih =>
      obtain ⟨head, tail⟩ := List.pairwise_cons.1 sorted
      cases k with
      | zero =>
          refine List.countP_eq_zero.2 fun b hb => ?_
          simp only [List.getElem_cons_zero, decide_eq_true_eq, not_lt]
          rcases List.mem_cons.1 hb with rfl | hb
          · exact le_rfl
          · exact (head b hb).le
      | succ k =>
          have hk : k < l.length := Nat.lt_of_succ_lt_succ hk
          have before : key a < key l[k] := head _ (List.getElem_mem hk)
          rw [List.countP_cons_of_pos (by simpa using before)]
          exact congrArg (· + 1) (ih tail hk)

namespace Formation

variable {f : Formation Rat} {axis : Axis} {i j k : Nat}

/-- Where a bullet stands along an axis: by its coordinate, and then by its position in the shot. -/
def standing (f : Formation Rat) (axis : Axis) (i : Nat) : Rat ×ₗ Nat := toLex (f.read axis i, i)

/-- How many of the selected bullets come before along an axis. -/
def rank (f : Formation Rat) (axis : Axis) (i : Nat) : Nat :=
  f.selection.countP fun j => decide (f.standing axis j < f.standing axis i)

section Ascending

variable (ascending : f.selection.Pairwise (· < ·))

include ascending

theorem pairwise_standing : (f.ranked axis).Pairwise fun i j => f.standing axis i < f.standing axis j := by
  have stable := Sorting.pairwise_sort_of_ascending
    (fun i j k => Scalar.totalLe_trans (f.read axis i) (f.read axis j) (f.read axis k))
    (fun i j => Scalar.totalLe_total (f.read axis i) (f.read axis j)) ascending
  refine stable.imp fun {i j} h => ?_
  obtain ⟨le, tie⟩ := h
  have le : f.read axis i ≤ f.read axis j := of_decide_eq_true le
  rw [standing, standing, Prod.Lex.toLex_lt_toLex]
  rcases le.lt_or_eq with lt | same
  · exact Or.inl lt
  · exact Or.inr ⟨same, tie (decide_eq_true same.ge)⟩

theorem rank_ranked (hk : k < (f.ranked axis).length) : f.rank axis (f.ranked axis)[k] = k := by
  rw [rank, ← (f.perm_ranked axis).countP_eq]
  exact countP_lt_getElem (pairwise_standing ascending) hk

theorem getElem?_rank (hi : i ∈ f.selection) : (f.ranked axis)[f.rank axis i]? = some i := by
  obtain ⟨k, hk, rfl⟩ := List.mem_iff_getElem.1 ((f.perm_ranked axis).mem_iff.2 hi)
  rw [rank_ranked ascending hk, List.getElem?_eq_getElem hk]

theorem rank_lt (hi : i ∈ f.selection) : f.rank axis i < f.selection.length := by
  have place : (f.ranked axis)[f.rank axis i]? = some i := getElem?_rank ascending hi
  rw [← (f.perm_ranked axis).length_eq]
  exact (List.getElem?_eq_some_iff.1 place).1

/-- Each rank is that of one of the selected bullets. -/
theorem perm_map_rank : (f.selection.map (f.rank axis)).Perm (List.range f.selection.length) := by
  have ranks : (f.ranked axis).map (f.rank axis) = List.range f.selection.length := by
    refine List.ext_getElem (by simp [(f.perm_ranked axis).length_eq]) fun k hk _ => ?_
    rw [List.getElem_map, List.getElem_range]
    exact rank_ranked ascending (by simpa using hk)
  rw [← ranks]
  exact ((f.perm_ranked axis).map _).symm

/-- Bullets are ranked as they stand. -/
theorem rank_lt_rank_iff (hi : i ∈ f.selection) (hj : j ∈ f.selection) :
    f.rank axis i < f.rank axis j ↔ f.standing axis i < f.standing axis j := by
  have increasing {k l : Nat} (hk : k < (f.ranked axis).length) (hl : l < (f.ranked axis).length) (lt : k < l) :
      f.standing axis (f.ranked axis)[k] < f.standing axis (f.ranked axis)[l] :=
    List.pairwise_iff_getElem.1 (pairwise_standing ascending) k l hk hl lt
  obtain ⟨k, hk, rfl⟩ := List.mem_iff_getElem.1 ((f.perm_ranked axis).mem_iff.2 hi)
  obtain ⟨l, hl, rfl⟩ := List.mem_iff_getElem.1 ((f.perm_ranked axis).mem_iff.2 hj)
  rw [rank_ranked ascending hk, rank_ranked ascending hl]
  rcases lt_trichotomy k l with lt | rfl | gt
  · exact iff_of_true lt (increasing hk hl lt)
  · exact iff_of_false (lt_irrefl _) (lt_irrefl _)
  · exact iff_of_false gt.not_gt (increasing hl hk gt).not_gt

end Ascending

end Formation

end Danmaku
