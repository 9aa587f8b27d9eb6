import Danmaku.Proofs.Segments

/-! Curves through their keys. When nothing is rounded, a curve whose keys are at different times takes the value of
each key at its time, stays at the outer values outside of the keys, and depends between two neighbours on these two
alone, in whatever order the keys are given. -/

namespace Danmaku.Curve

section Outside

variable {α : Type} [Scalar α] {c : Curve α} {t : α} {first last : Keyframe α}

theorem evaluate_of_le_first (head : c.keys.head? = some first) (le : t ≤ first.time) : c.evaluate t = first.value := by
  obtain ⟨others, keys⟩ := List.head?_eq_some_iff.1 head
  simp only [evaluate, evaluate?, keys, List.head?_cons, List.getLast?_cons, if_pos le, ite_self, Option.getD_some]

theorem evaluate_of_last_le (head : c.keys.head? = some first) (getLast : c.keys.getLast? = some last)
    (number : Scalar.isNaN t = false) (after : ¬t ≤ first.time) (le : last.time ≤ t) : c.evaluate t = last.value := by
  simp only [evaluate, evaluate?, head, getLast, number, if_neg after, if_pos le, Bool.false_eq_true, if_false,
    Option.getD_some]

end Outside

variable {c : Curve Rat} {keys before after : List (Keyframe Rat)} {a b k first last : Keyframe Rat} {t : Rat}

theorem hermite_left (h : a.time < b.time) : hermite a b a.time = a.value := by
  have span : ¬b.time - a.time ≤ 0 := by linarith
  have start : (a.time - a.time) / (b.time - a.time) = 0 := by rw [sub_self, zero_div]
  simp only [hermite, if_neg span]
  rw [start]
  ring

/-- The keys of a curve are in the order of their times, without equal ones where these are different. -/
theorem pairwise_lt_of_nodup (distinct : (c.keys.map Keyframe.time).Nodup) :
    c.keys.Pairwise fun a b => a.time < b.time := by
  have ne : c.keys.Pairwise fun a b => a.time ≠ b.time := List.pairwise_map.1 distinct
  refine (c.sorted.and ne).imp fun {a b} h => ?_
  have le : a.time ≤ b.time := of_decide_eq_true h.1
  exact lt_of_le_of_ne le h.2

theorem perm_keys_ofKeys (keys : List (Keyframe Rat)) : (ofKeys keys).keys.Perm keys := Sorting.perm_sort _ keys

theorem pairwise_time_lt (distinct : (keys.map Keyframe.time).Nodup) :
    (ofKeys keys).keys.Pairwise fun a b => a.time < b.time :=
  pairwise_lt_of_nodup (((perm_keys_ofKeys keys).map Keyframe.time).nodup_iff.2 distinct)

section Sorted

variable (sorted : c.keys.Pairwise fun a b => a.time < b.time)

include sorted

theorem first_le (head : c.keys.head? = some first) (hk : k ∈ c.keys) : first.time ≤ k.time := by
  rcases eq_or_rel_of_head? sorted head hk with rfl | lt
  · exact le_rfl
  · exact lt.le

theorem le_last (getLast : c.keys.getLast? = some last) (hk : k ∈ c.keys) : k.time ≤ last.time := by
  rcases eq_or_rel_of_getLast? sorted getLast hk with rfl | lt
  · exact le_rfl
  · exact lt.le

/-- From the last key on, the curve stays at its value. -/
theorem evaluate_from_last (getLast : c.keys.getLast? = some last) (le : last.time ≤ t) :
    c.evaluate t = last.value := by
  have mem : last ∈ c.keys := List.mem_of_getLast? getLast
  obtain ⟨first, head⟩ : ∃ first, c.keys.head? = some first := ⟨_, List.head?_eq_some_head (List.ne_nil_of_mem mem)⟩
  by_cases outer : t ≤ first.time
  · rcases eq_or_rel_of_head? sorted head mem with rfl | lt
    · exact evaluate_of_le_first head outer
    · exact absurd (le.trans outer) lt.not_ge
  · exact evaluate_of_last_le head getLast rfl outer le

/-- From a key on and before the next, the keys up to the former are not after the time. -/
theorem reached_of_split (split : c.keys = before ++ a :: b :: after) (le : a.time ≤ t) (lt : t < b.time) :
    c.reached t = before.length + 1 := by
  rw [split] at sorted
  obtain ⟨-, rest, across⟩ := List.pairwise_append.1 sorted
  obtain ⟨-, rest⟩ := List.pairwise_cons.1 rest
  have parted : PartedAt (fun k => k.time ≤ t) c.keys (before.length + 1) := by
    refine ⟨by simp [split], fun k hk => decide_eq_true ?_, fun k hk => decide_eq_false ?_⟩
    · rw [split, List.take_length_add_append] at hk
      rcases List.mem_append.1 hk with hk | hk
      · exact (across k hk a List.mem_cons_self).le.trans le
      · obtain rfl := List.mem_singleton.1 hk
        exact le
    · rw [split, List.drop_length_add_append] at hk
      rcases List.mem_cons.1 hk with rfl | hk
      · exact lt.not_ge
      · exact (lt.trans (List.rel_of_pairwise_cons rest hk)).not_ge
  exact parted.partitionPoint_eq

/-- From a key on and before the next, the curve is the cubic through the two. -/
theorem evaluate_of_split (split : c.keys = before ++ a :: b :: after) (le : a.time ≤ t) (lt : t < b.time) :
    c.evaluate t = hermite a b t := by
  have ha : a ∈ c.keys := by simp [split]
  have hb : b ∈ c.keys := by simp [split]
  have ne : c.keys ≠ [] := List.ne_nil_of_mem ha
  obtain ⟨first, head⟩ : ∃ first, c.keys.head? = some first := ⟨_, List.head?_eq_some_head ne⟩
  obtain ⟨last, getLast⟩ : ∃ last, c.keys.getLast? = some last := ⟨_, List.getLast?_eq_some_getLast ne⟩
  by_cases outer : t ≤ first.time
  · -- The time is that of the first key.
    rcases eq_or_rel_of_head? sorted head ha with rfl | later
    · rw [evaluate_of_le_first head outer, le_antisymm outer le, hermite_left (le.trans_lt lt)]
    · exact absurd (le.trans outer) later.not_ge
  · have inner : ¬last.time ≤ t := by
      rcases eq_or_rel_of_getLast? sorted getLast hb with rfl | earlier
      · exact lt.not_ge
      · exact (lt.trans earlier).not_ge
    refine evaluate_of_inside ⟨head, getLast, rfl, outer, inner⟩ (reached_of_split sorted split le lt) ?_ ?_
    · simp [split]
    · simp [split]

theorem evaluate_key (hk : k ∈ c.keys) : c.evaluate k.time = k.value := by
  obtain ⟨before, after, split⟩ := List.append_of_mem hk
  cases after with
  | nil =>
      have getLast : c.keys.getLast? = some k := by rw [split, List.getLast?_concat]
      exact evaluate_from_last sorted getLast le_rfl
  | cons b after =>
      have lt : k.time < b.time := by
        rw [split] at sorted
        exact List.rel_of_pairwise_cons (List.pairwise_append.1 sorted).2.1 List.mem_cons_self
      rw [evaluate_of_split sorted split le_rfl lt, hermite_left lt]

/-- Two keys without another between them are neighbours. -/
theorem exists_split (ha : a ∈ c.keys) (hb : b ∈ c.keys) (lt : a.time < b.time)
    (next : ∀ k ∈ c.keys, k.time ≤ a.time ∨ b.time ≤ k.time) : ∃ before after, c.keys = before ++ a :: b :: after := by
  obtain ⟨before, after, split⟩ := List.append_of_mem ha
  rw [split] at sorted hb next
  obtain ⟨-, rest, across⟩ := List.pairwise_append.1 sorted
  have hb : b ∈ after := by
    rcases List.mem_append.1 hb with hb | hb
    · exact absurd (across b hb a List.mem_cons_self) lt.not_gt
    · exact (List.mem_cons.1 hb).resolve_left fun same => lt.ne' (congrArg Keyframe.time same)
  obtain ⟨later, rest⟩ := List.pairwise_cons.1 rest
  cases after with
  | nil => exact absurd hb List.not_mem_nil
  | cons k after =>
      have le : b.time ≤ k.time := (next k (by simp)).resolve_left (later k List.mem_cons_self).not_ge
      rcases List.mem_cons.1 hb with rfl | hb
      · exact ⟨before, after, split⟩
      · exact absurd (List.rel_of_pairwise_cons rest hb) le.not_gt

end Sorted

/-- A curve of keys at different times, in any order, has the value of each key at its time, that of the first key up to
it and that of the last key from there on. Strictly between two keys without another between them it is the curve of
these two alone. -/
theorem evaluate_between_keys (keys : List (Keyframe Rat)) (nonempty : keys ≠ [])
    (distinct : (keys.map Keyframe.time).Nodup) :
    let c := ofKeys keys
    (∀ k ∈ keys, c.evaluate k.time = k.value) ∧
    (∃ first ∈ keys, (∀ k ∈ keys, first.time ≤ k.time) ∧ ∀ t ≤ first.time, c.evaluate t = first.value) ∧
    (∃ last ∈ keys, (∀ k ∈ keys, k.time ≤ last.time) ∧ ∀ t, last.time ≤ t → c.evaluate t = last.value) ∧
    ∀ a ∈ keys, ∀ b ∈ keys, (∀ k ∈ keys, k.time ≤ a.time ∨ b.time ≤ k.time) → ∀ t, a.time < t → t < b.time →
      c.evaluate t = (ofKeys [a, b]).evaluate t := by
  intro c
  have sorted : c.keys.Pairwise fun a b => a.time < b.time := pairwise_time_lt distinct
  have mem (k : Keyframe Rat) : k ∈ c.keys ↔ k ∈ keys := Sorting.mem_sort _
  have ne : c.keys ≠ [] := by
    rw [← List.length_pos_iff] at nonempty ⊢
    rwa [show c.keys.length = keys.length from Sorting.length_sort _ keys]
  refine ⟨fun k hk => evaluate_key sorted ((mem k).2 hk), ?_, ?_, ?_⟩
  · obtain ⟨first, head⟩ : ∃ first, c.keys.head? = some first := ⟨_, List.head?_eq_some_head ne⟩
    exact ⟨first, (mem first).1 (List.mem_of_head? head), fun k hk => first_le sorted head ((mem k).2 hk),
      fun t le => evaluate_of_le_first head le⟩
  · obtain ⟨last, getLast⟩ : ∃ last, c.keys.getLast? = some last := ⟨_, List.getLast?_eq_some_getLast ne⟩
    exact ⟨last, (mem last).1 (List.mem_of_getLast? getLast), fun k hk => le_last sorted getLast ((mem k).2 hk),
      fun t => evaluate_from_last sorted getLast⟩
  · intro a ha b hb next t lo hi
    have lt : a.time < b.time := lo.trans hi
    obtain ⟨_, _, split⟩ := exists_split sorted ((mem a).2 ha) ((mem b).2 hb) lt fun k hk => next k ((mem k).1 hk)
    have sorted' : (ofKeys [a, b]).keys.Pairwise fun a b => a.time < b.time :=
      pairwise_time_lt (by simpa using lt.ne)
    have mem' (k : Keyframe Rat) : k ∈ (ofKeys [a, b]).keys ↔ k = a ∨ k = b := (Sorting.mem_sort _).trans (by simp)
    obtain ⟨_, _, split'⟩ := exists_split sorted' ((mem' a).2 (Or.inl rfl)) ((mem' b).2 (Or.inr rfl)) lt
      fun k hk => ((mem' k).1 hk).imp (fun same => (congrArg Keyframe.time same).le)
        fun same => (congrArg Keyframe.time same).ge
    rw [evaluate_of_split sorted split lo.le hi, evaluate_of_split sorted' split' lo.le hi]

/-- Three keys, given out of order. -/
theorem evaluate_between_three_keys :
    let start : Keyframe Rat := ⟨0, 1, 0, 2⟩
    let middle : Keyframe Rat := ⟨1, 3, -1, 2⟩
    let finish : Keyframe Rat := ⟨2, 7, 4, 0⟩
    let c := ofKeys [finish, start, middle]
    c.evaluate 0 = 1 ∧ c.evaluate 1 = 3 ∧ c.evaluate 2 = 7 ∧ c.evaluate (-5) = 1 ∧ c.evaluate 9 = 7 ∧
      c.evaluate (1 / 2) = (ofKeys [start, middle]).evaluate (1 / 2) := by
  intro start middle finish c
  obtain ⟨keys, ⟨first, hfirst, least, until'⟩, ⟨last, hlast, most, from'⟩, between⟩ :=
    evaluate_between_keys [finish, start, middle] (by simp) (by simp [start, middle, finish])
  have first_eq : first = start := by
    have le : first.time ≤ 0 := least start (by simp)
    simp only [List.mem_cons, List.not_mem_nil, or_false] at hfirst
    rcases hfirst with rfl | rfl | rfl
    · exact absurd le (by norm_num [finish])
    · rfl
    · exact absurd le (by norm_num [middle])
  have last_eq : last = finish := by
    have le : 2 ≤ last.time := most finish (by simp)
    simp only [List.mem_cons, List.not_mem_nil, or_false] at hlast
    rcases hlast with rfl | rfl | rfl
    · rfl
    · exact absurd le (by norm_num [start])
    · exact absurd le (by norm_num [middle])
  subst first_eq last_eq
  refine ⟨keys start (by simp), keys middle (by simp), keys finish (by simp), until' (-5) (by norm_num [start]),
    from' 9 (by norm_num [finish]), ?_⟩
  refine between start (by simp) middle (by simp) ?_ (1 / 2) (by norm_num [start]) (by norm_num [middle])
  simp [start, middle, finish]

end Danmaku.Curve
