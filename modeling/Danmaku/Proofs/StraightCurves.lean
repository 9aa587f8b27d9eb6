import Danmaku.Proofs.CurveKeys

/-! Straight curves. When nothing is rounded, keys on a line whose tangents are the slope of the line give back the
line, however many keys there are and however far they are apart, and outside of the keys the line stays at its ends. -/

namespace Danmaku

variable {slope offset : Rat}

/-- The key is on a line, and the curve comes and goes along the line. -/
structure Keyframe.Along (slope offset : Rat) (k : Keyframe Rat) : Prop where
  value : k.value = slope * k.time + offset
  inTangent : k.inTangent = slope
  outTangent : k.outTangent = slope

namespace Curve

variable {c : Curve Rat} {a b first last : Keyframe Rat} {t : Rat}

/-- The cubic through two keys of a line is the line. -/
theorem hermite_along (ha : a.Along slope offset) (hb : b.Along slope offset) (lt : a.time < b.time) (t : Rat) :
    hermite a b t = slope * t + offset := by
  have span : ¬b.time - a.time ≤ 0 := by linarith
  obtain ⟨s, hs⟩ : ∃ s, s = (t - a.time) / (b.time - a.time) := ⟨_, rfl⟩
  have time : t = a.time + s * (b.time - a.time) := by
    have ne : b.time - a.time ≠ 0 := by linarith
    rw [hs, div_mul_cancel₀ _ ne]
    ring
  have cubic : hermite a b t = (2 * (s * s * s) - 3 * (s * s) + 1) * a.value +
      (s * s * s - 2 * (s * s) + s) * (b.time - a.time) * a.outTangent +
      (-2 * (s * s * s) + 3 * (s * s)) * b.value + (s * s * s - s * s) * (b.time - a.time) * b.inTangent := by
    simp only [hermite, if_neg span]
    rw [hs]
  rw [cubic, ha.value, ha.outTangent, hb.value, hb.inTangent, time]
  ring

/-- From the first key on and before the last, the time is between two neighbours. -/
theorem exists_segment (head : c.keys.head? = some first) (getLast : c.keys.getLast? = some last)
    (after : first.time ≤ t) (before : t < last.time) :
    ∃ l a b r, c.keys = l ++ a :: b :: r ∧ a.time ≤ t ∧ t < b.time := by
  -- The former of the two is the last key that is not after the time, and the latter is the one that follows.
  have split : c.keys.takeWhile (·.time ≤ t) ++ c.keys.dropWhile (·.time ≤ t) = c.keys :=
    List.takeWhile_append_dropWhile
  have taken : c.keys.takeWhile (·.time ≤ t) ≠ [] := by
    obtain ⟨others, keys⟩ := List.head?_eq_some_iff.1 head
    simp [keys, after]
  have dropped : c.keys.dropWhile (·.time ≤ t) ≠ [] := by
    intro none
    have mem : last ∈ c.keys.takeWhile (·.time ≤ t) := by
      rw [none, List.append_nil] at split
      rw [split]
      exact List.mem_of_getLast? getLast
    have reached := List.mem_takeWhile_imp mem
    exact before.not_ge (of_decide_eq_true reached)
  obtain ⟨l, a, hl⟩ := (List.eq_nil_or_concat' _).resolve_left taken
  obtain ⟨b, r, hr⟩ := List.exists_cons_of_ne_nil dropped
  refine ⟨l, a, b, r, ?_, ?_, ?_⟩
  · rw [← split, hl, hr, List.append_assoc]
    rfl
  · have mem : a ∈ c.keys.takeWhile (·.time ≤ t) := by simp [hl]
    have reached := List.mem_takeWhile_imp mem
    exact of_decide_eq_true reached
  · have beyond := List.head_dropWhile_not (fun k : Keyframe Rat => decide (k.time ≤ t)) dropped
    simp only [hr, List.head_cons, decide_eq_false_iff_not] at beyond
    exact not_le.1 beyond

/-- A curve along a line is the line up to where its keys end. -/
theorem evaluate_of_along (sorted : c.keys.Pairwise fun a b => a.time < b.time)
    (along : ∀ k ∈ c.keys, k.Along slope offset) (head : c.keys.head? = some first)
    (getLast : c.keys.getLast? = some last) (t : Rat) :
    c.evaluate t = slope * max first.time (min t last.time) + offset := by
  have hfirst : first ∈ c.keys := List.mem_of_head? head
  have hlast : last ∈ c.keys := List.mem_of_getLast? getLast
  have ordered : first.time ≤ last.time := first_le sorted head hlast
  by_cases early : t ≤ first.time
  · rw [evaluate_of_le_first head early, (along first hfirst).value, max_eq_left ((min_le_left _ _).trans early)]
  · by_cases late : last.time ≤ t
    · rw [evaluate_from_last sorted getLast late, (along last hlast).value, min_eq_right late, max_eq_right ordered]
    · have after : first.time ≤ t := (not_le.1 early).le
      have before : t < last.time := not_le.1 late
      obtain ⟨l, a, b, r, split, le, lt⟩ := exists_segment head getLast after before
      have ha : a ∈ c.keys := by simp [split]
      have hb : b ∈ c.keys := by simp [split]
      rw [evaluate_of_split sorted split le lt, hermite_along (along a ha) (along b hb) (le.trans_lt lt),
        min_eq_left before.le, max_eq_right after]

/-- A curve along a line is the line between the least and the greatest time of its keys. -/
theorem exists_ends_of_along (nonempty : c.keys ≠ []) (distinct : (c.keys.map Keyframe.time).Nodup)
    (along : ∀ k ∈ c.keys, k.Along slope offset) :
    ∃ first ∈ c.keys, ∃ last ∈ c.keys, (∀ k ∈ c.keys, first.time ≤ k.time ∧ k.time ≤ last.time) ∧
      ∀ t, c.evaluate t = slope * max first.time (min t last.time) + offset := by
  have sorted := pairwise_lt_of_nodup distinct
  obtain ⟨first, head⟩ : ∃ first, c.keys.head? = some first := ⟨_, List.head?_eq_some_head nonempty⟩
  obtain ⟨last, getLast⟩ : ∃ last, c.keys.getLast? = some last := ⟨_, List.getLast?_eq_some_getLast nonempty⟩
  refine ⟨first, List.mem_of_head? head, last, List.mem_of_getLast? getLast, ?_, ?_⟩
  · intro k hk
    exact ⟨first_le sorted head hk, le_last sorted getLast hk⟩
  · exact evaluate_of_along sorted along head getLast

theorem keys_linear : (linear : Curve Rat).keys = [⟨0, 0, 1, 1⟩, ⟨1, 1, 1, 1⟩] := by decide +kernel

theorem along_linear : ∀ k ∈ (linear : Curve Rat).keys, k.Along 1 0 := by
  rw [keys_linear]
  intro k hk
  simp only [List.mem_cons, List.not_mem_nil, or_false] at hk
  rcases hk with rfl | rfl
  · exact ⟨by norm_num, rfl, rfl⟩
  · exact ⟨by norm_num, rfl, rfl⟩

/-- A curve whose keys are at different times, on a line and with the slope of the line for their tangents, is this line
between the least and the greatest of its times, and stays at the ends of the line outside. The linear curve is the
identity on `[0, 1]` in this way. -/
theorem evaluate_along_line :
    (∀ (c : Curve Rat) (slope offset : Rat), c.keys ≠ [] → (c.keys.map Keyframe.time).Nodup →
      (∀ k ∈ c.keys, k.Along slope offset) →
      ∃ first ∈ c.keys, ∃ last ∈ c.keys, (∀ k ∈ c.keys, first.time ≤ k.time ∧ k.time ≤ last.time) ∧
        ∀ t, c.evaluate t = slope * max first.time (min t last.time) + offset) ∧
    (∀ k ∈ (linear : Curve Rat).keys, k.Along 1 0) ∧ ∀ t : Rat, 0 ≤ t → t ≤ 1 → linear.evaluate t = t := by
  refine ⟨fun c slope offset nonempty distinct along => exists_ends_of_along nonempty distinct along, along_linear, ?_⟩
  intro t start finish
  have sorted : (linear : Curve Rat).keys.Pairwise fun a b => a.time < b.time := by
    rw [keys_linear]
    simp
  have head : (linear : Curve Rat).keys.head? = some ⟨0, 0, 1, 1⟩ := by rw [keys_linear, List.head?_cons]
  have getLast : (linear : Curve Rat).keys.getLast? = some ⟨1, 1, 1, 1⟩ := by
    rw [keys_linear]
    rfl
  calc linear.evaluate t = 1 * max 0 (min t 1) + 0 := evaluate_of_along sorted along_linear head getLast t
    _ = t := by rw [min_eq_left finish, max_eq_right start, one_mul, add_zero]

/-- Four keys on a falling line, given out of order and at uneven distances. -/
theorem evaluate_along_falling_line :
    let k (time : Rat) : Keyframe Rat := ⟨time, -2 * time + 7, -2, -2⟩
    let c := ofKeys [k 5, k (-1), k (1 / 2), k 2]
    c.keys ≠ [] ∧ (c.keys.map Keyframe.time).Nodup ∧ (∀ k ∈ c.keys, k.Along (-2) 7) ∧
      ∃ first ∈ c.keys, ∃ last ∈ c.keys, (∀ k ∈ c.keys, first.time ≤ k.time ∧ k.time ≤ last.time) ∧
        ∀ t, c.evaluate t = -2 * max first.time (min t last.time) + 7 := by
  intro k c
  have perm : c.keys.Perm [k 5, k (-1), k (1 / 2), k 2] := perm_keys_ofKeys _
  have nonempty : c.keys ≠ [] := by
    intro none
    rw [none] at perm
    exact absurd perm.length_eq (by decide)
  have distinct : (c.keys.map Keyframe.time).Nodup := by
    rw [(perm.map Keyframe.time).nodup_iff]
    norm_num [k]
  have along : ∀ k ∈ c.keys, k.Along (-2) 7 := by
    intro key hk
    have given := perm.mem_iff.1 hk
    simp only [List.mem_cons, List.not_mem_nil, or_false] at given
    rcases given with rfl | rfl | rfl | rfl <;> exact ⟨rfl, rfl, rfl⟩
  exact ⟨nonempty, distinct, along, evaluate_along_line.1 c (-2) 7 nonempty distinct along⟩

end Curve

end Danmaku
