import Danmaku.Layout

/-! What a selection selects. Whatever its numbers are, a selection among so many positions is the ascending list,
without repetitions, of the positions that its description tells: those of a range, those at regular steps from an
offset, or those that are listed. An empty range, an offset past the end and a step of nothing are no exceptions. -/

namespace Danmaku.Selection

theorem selects_range {first stop : UInt32} {i : Nat} :
    (range first stop).selects i = true ↔ first.toNat ≤ i ∧ i < stop.toNat := by
  simp only [selects, Bool.and_eq_true, decide_eq_true_eq]

/-- A step of nothing is a step of one. -/
theorem selects_everyNth {step offset : UInt32} {i : Nat} :
    (everyNth step offset).selects i = true ↔ offset.toNat ≤ i ∧ max step.toNat 1 ∣ i - offset.toNat := by
  simp only [selects, Bool.and_eq_true, decide_eq_true_eq, beq_iff_eq, Nat.dvd_iff_mod_eq_zero,
    Nat.max_comm 1 step.toNat]

theorem selects_indices {list : List UInt32} {i : Nat} :
    (indices list).selects i = true ↔ ∃ j ∈ list, j.toNat = i := by
  simp only [selects, List.any_eq_true, beq_iff_eq]

/-- The selected positions ascend strictly, and they are those below the number of all that the description tells. -/
theorem among_ascending_exact (s : Selection) (count : Nat) :
    (s.among count).Pairwise (· < ·) ∧
    ∀ i, i ∈ s.among count ↔ i < count ∧
      match s with
      | range first stop => first.toNat ≤ i ∧ i < stop.toNat
      | everyNth step offset => offset.toNat ≤ i ∧ max step.toNat 1 ∣ i - offset.toNat
      | indices list => ∃ j ∈ list, j.toNat = i := by
  refine ⟨s.pairwise_among count, fun i => mem_among.trans (and_congr_right fun _ => ?_)⟩
  cases s with
  | range first stop => exact selects_range
  | everyNth step offset => exact selects_everyNth
  | indices list => exact selects_indices

example : (indices [4, 1, 9, 1, 0]).among 6 = [0, 1, 4] := by cbv

end Danmaku.Selection
