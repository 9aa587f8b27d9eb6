import Danmaku.Proofs.Segments

/-! Stops that hold. A ramp that holds its stops has the value of the latest stop that is not after the time, or that of
the first stop where all are after it, in whatever order the stops are given. A gradient holds its colors and its
opacities each in this way, and neither looks at the stops of the other. -/

namespace Danmaku

/-- A sort goes by the members alone where no two of them are equal in the order. -/
theorem Sorting.sort_eq_of_perm {β : Type} {le : β → β → Bool} {l m : List β}
    (trans : ∀ a b c, le a b = true → le b c = true → le a c = true) (total : ∀ a b, (le a b || le b a) = true)
    (antisymm : ∀ a ∈ l, ∀ b ∈ l, le a b = true → le b a = true → a = b) (h : l.Perm m) : sort le l = sort le m := by
  have perm : (sort le l).Perm (sort le m) := (perm_sort le l).trans (h.trans (perm_sort le m).symm)
  refine perm.eq_of_pairwise (fun a b ha hb => ?_) (pairwise_sort trans total l) (pairwise_sort trans total m)
  exact antisymm a ((mem_sort le).1 ha) b (h.mem_iff.2 ((mem_sort le).1 hb))

namespace Stop

variable {ν : Type} {stops others : List (Stop ν)} {t : Single} {r s : Stop ν}

/-- The stops are at numbers, and no two of them at the same; `-0` and `0` are the same. -/
structure Distinct (stops : List (Stop ν)) : Prop where
  numbers : ∀ s ∈ stops, s.time.isNaN = false
  different : stops.Pairwise fun a b => a.time < b.time ∨ b.time < a.time

/-- What holds at a time: the latest of the stops that are not after it, or the first stop where all are. -/
inductive Holds (stops : List (Stop ν)) (t : Single) (s : Stop ν) : Prop where
  | latest (mem : s ∈ stops) (reached : s.time ≤ t) (last : ∀ r ∈ stops, r.time ≤ t → r.time ≤ s.time)
  | first (mem : s ∈ stops) (none : ∀ r ∈ stops, ¬r.time ≤ t) (least : ∀ r ∈ stops, s.time ≤ r.time)

theorem Holds.mem (h : Holds stops t s) : s ∈ stops := by
  cases h with
  | latest mem => exact mem
  | first mem => exact mem

theorem Holds.congr (same : ∀ r, r ∈ others ↔ r ∈ stops) (h : Holds stops t s) : Holds others t s := by
  cases h with
  | latest mem reached last =>
      exact .latest ((same s).2 mem) reached fun r hr => last r ((same r).1 hr)
  | first mem none least =>
      exact .first ((same s).2 mem) (fun r hr => none r ((same r).1 hr)) fun r hr => least r ((same r).1 hr)

theorem Distinct.eq_of_le (h : Distinct stops) (hr : r ∈ stops) (hs : s ∈ stops) (le : r.time ≤ s.time)
    (ge : s.time ≤ r.time) : r = s := by
  have symmetric : Std.Symm fun a b : Stop ν => a.time < b.time ∨ b.time < a.time := ⟨fun _ _ => Or.symm⟩
  by_contra ne
  rcases h.different.forall hr hs ne with lt | lt
  · exact Single.not_le_of_lt lt ge
  · exact Single.not_le_of_lt lt le

/-- Of stops at different times, one at most holds. -/
theorem Distinct.eq_of_holds (h : Distinct stops) (hr : Holds stops t r) (hs : Holds stops t s) : r = s := by
  cases hr with
  | latest memr reachedr lastr =>
      cases hs with
      | latest mems reacheds lasts => exact h.eq_of_le memr mems (lasts r memr reachedr) (lastr s mems reacheds)
      | first _ none => exact absurd reachedr (none r memr)
  | first memr noner leastr =>
      cases hs with
      | latest mems reacheds => exact absurd reacheds (noner s mems)
      | first mems _ leasts => exact h.eq_of_le memr mems (leastr s mems) (leasts r memr)

theorem Distinct.ofStops_eq (h : Distinct stops) (perm : others.Perm stops) :
    Ramp.ofStops others = Ramp.ofStops stops := by
  have sorted : Sorting.sort notAfter stops = Sorting.sort notAfter others := by
    refine Sorting.sort_eq_of_perm notAfter_trans notAfter_total (fun a ha b hb le ge => ?_) perm.symm
    exact h.eq_of_le ha hb (Single.le_of_totalLe (h.numbers a ha) (h.numbers b hb) le)
      (Single.le_of_totalLe (h.numbers b hb) (h.numbers a ha) ge)
  simp only [Ramp.ofStops, sorted]

end Stop

namespace Ramp

variable {ν : Type} {r : Ramp ν} {t : Single} {stops : List (Stop ν)} {s : Stop ν}

theorem mem_ofStops : s ∈ (ofStops stops).stops ↔ s ∈ stops := Sorting.mem_sort Stop.notAfter

section Numbers

variable (numbers : ∀ s ∈ r.stops, s.time.isNaN = false)

include numbers

theorem pairwise_time_le : r.stops.Pairwise fun a b => a.time ≤ b.time :=
  r.sorted.imp_of_mem fun ha hb le => Single.le_of_totalLe (numbers _ ha) (numbers _ hb) le

theorem first_le {first : Stop ν} (head : r.stops.head? = some first) (hs : s ∈ r.stops) : first.time ≤ s.time := by
  rcases eq_or_rel_of_head? (pairwise_time_le numbers) head hs with rfl | le
  · exact Single.le_refl (numbers s hs)
  · exact le

theorem le_last {last : Stop ν} (getLast : r.stops.getLast? = some last) (hs : s ∈ r.stops) : s.time ≤ last.time := by
  rcases eq_or_rel_of_getLast? (pairwise_time_le numbers) getLast hs with rfl | le
  · exact Single.le_refl (numbers s hs)
  · exact le

/-- Whatever the time, one of the stops holds, and its value is the sample. -/
theorem exists_holds (nonempty : r.stops ≠ []) (number : t.isNaN = false) (mix : ν → ν → Single → ν) (absent : ν) :
    ∃ s, Stop.Holds r.stops t s ∧ r.sample? .hold mix absent t = some s.value := by
  obtain ⟨first, head⟩ : ∃ first, r.stops.head? = some first := ⟨_, List.head?_eq_some_head nonempty⟩
  obtain ⟨last, getLast⟩ : ∃ last, r.stops.getLast? = some last := ⟨_, List.getLast?_eq_some_getLast nonempty⟩
  have hfirst : first ∈ r.stops := List.mem_of_head? head
  have hlast : last ∈ r.stops := List.mem_of_getLast? getLast
  by_cases early : t ≤ first.time
  · refine ⟨first, ?_, by simp only [sample?, head, getLast, if_pos early]⟩
    by_cases reached : first.time ≤ t
    · exact .latest hfirst reached fun s _ le => Single.le_trans le early
    · exact .first hfirst (fun s hs le => reached (Single.le_trans (first_le numbers head hs) le))
        fun s hs => first_le numbers head hs
  · by_cases late : last.time ≤ t
    · refine ⟨last, ?_, by simp only [sample?, head, getLast, if_neg early, if_pos late]⟩
      exact .latest hlast late fun s hs _ => le_last numbers getLast hs
    · -- The last of the stops that are counted is the latest one that is not after the time.
      have found := (r.searched .hold mix absent number).found first last ⟨head, getLast, number, early, late⟩
      have parted := found.parted (numbers first hfirst)
      have pos := found.pos_iff.2 (Or.inl (numbers first hfirst))
      obtain ⟨a, b, before, -, reached, -, result⟩ := found.around pos
      rw [← Nat.sub_add_cancel pos] at parted
      refine ⟨a, .latest (List.mem_of_getElem? before) reached fun s hs le => ?_, result⟩
      rcases parted.eq_or_rel (pairwise_time_le numbers) before hs (decide_eq_true le) with rfl | le
      · exact Single.le_refl (numbers s hs)
      · exact le

end Numbers

theorem ofStops_ne_nil (nonempty : stops ≠ []) : (ofStops stops).stops ≠ [] := by
  obtain ⟨s, hs⟩ := List.exists_mem_of_ne_nil stops nonempty
  exact List.ne_nil_of_mem (mem_ofStops.2 hs)

/-- Of stops at different times, one holds if there are any, and the ramp has its value. -/
theorem sample_hold (distinct : Stop.Distinct stops) (number : t.isNaN = false) (mix : ν → ν → Single → ν)
    (absent : ν) :
    (stops ≠ [] → ∃ s, Stop.Holds stops t s) ∧
      ∀ s, Stop.Holds stops t s → (ofStops stops).sample .hold mix absent t = s.value := by
  have exists_sample (nonempty : stops ≠ []) :
      ∃ s, Stop.Holds stops t s ∧ (ofStops stops).sample? .hold mix absent t = some s.value := by
    have numbers : ∀ s ∈ (ofStops stops).stops, s.time.isNaN = false :=
      fun s hs => distinct.numbers s (mem_ofStops.1 hs)
    obtain ⟨s, holds, sample⟩ := exists_holds numbers (ofStops_ne_nil nonempty) number mix absent
    exact ⟨s, holds.congr fun r => mem_ofStops.symm, sample⟩
  constructor
  · intro nonempty
    obtain ⟨s, holds, -⟩ := exists_sample nonempty
    exact ⟨s, holds⟩
  · intro s holds
    obtain ⟨r, held, sample⟩ := exists_sample (List.ne_nil_of_mem holds.mem)
    rw [Ramp.sample, sample, Option.getD_some, distinct.eq_of_holds held holds]

end Ramp

/-- A color without its opacity. -/
def Color.toVec3 (c : Color) : Vec3 := ⟨c.r, c.g, c.b⟩

namespace Gradient

/-- Where the stops of a gradient are at different times, given in any order, a gradient that holds them has at `t`,
brought into `[0, 1]`, the color and the opacity of the latest stop that is not after it, or of the first stop where
all are after it. In both modes it is white without color stops and opaque without opacity stops, its color is that of
any gradient with the same color stops, and its opacity that of any with the same opacity stops. -/
theorem evaluate_holds (colors : List (Stop Vec3)) (alphas : List (Stop Single)) (different : Stop.Distinct colors)
    (different' : Stop.Distinct alphas) (t : Single) :
    let u := if t.isNaN then 0 else t.clamp 0 1
    let sample (mode : GradientMode) : Color := evaluate ⟨.ofStops colors, .ofStops alphas, mode⟩ t
    ((colors ≠ [] → ∃ s, Stop.Holds colors u s) ∧ ∀ s, Stop.Holds colors u s → (sample .hold).toVec3 = s.value) ∧
    ((alphas ≠ [] → ∃ s, Stop.Holds alphas u s) ∧ ∀ s, Stop.Holds alphas u s → (sample .hold).a = s.value) ∧
    ∀ mode, (colors = [] → (sample mode).toVec3 = ⟨1, 1, 1⟩) ∧ (alphas = [] → (sample mode).a = 1) ∧
      ∀ colors' alphas',
        (colors'.Perm colors →
          (evaluate ⟨.ofStops colors', .ofStops alphas', mode⟩ t).toVec3 = (sample mode).toVec3) ∧
        (alphas'.Perm alphas → (evaluate ⟨.ofStops colors', .ofStops alphas', mode⟩ t).a = (sample mode).a) := by
  intro u sample
  have number : u.isNaN = false := isNaN_clampTime t
  -- The two ramps are sampled apart from each other.
  have rgb (colors alphas) (mode) : (evaluate ⟨.ofStops colors, .ofStops alphas, mode⟩ t).toVec3 =
      (Ramp.ofStops colors).sample mode Vec3.lerp ⟨1, 1, 1⟩ u := rfl
  have opacity (colors alphas) (mode) : (evaluate ⟨.ofStops colors, .ofStops alphas, mode⟩ t).a =
      (Ramp.ofStops alphas).sample mode Single.lerp 1 u := rfl
  refine ⟨⟨(Ramp.sample_hold different number Vec3.lerp ⟨1, 1, 1⟩).1, fun s holds => ?_⟩,
    ⟨(Ramp.sample_hold different' number Single.lerp 1).1, fun s holds => ?_⟩,
    fun mode => ⟨?_, ?_, fun colors' alphas' => ⟨?_, ?_⟩⟩⟩
  · rw [rgb, (Ramp.sample_hold different number Vec3.lerp _).2 s holds]
  · rw [opacity, (Ramp.sample_hold different' number Single.lerp _).2 s holds]
  · rintro rfl
    rfl
  · rintro rfl
    rfl
  · intro perm
    rw [rgb, rgb, different.ofStops_eq perm]
  · intro perm
    rw [opacity, opacity, different'.ofStops_eq perm]

/-- Three colors and one opacity, given out of order; the opacity is that of a stop after the time. -/
theorem evaluate_holds_between_stops :
    let colors : List (Stop Vec3) := [⟨0.75, ⟨1, 0, 0⟩⟩, ⟨0.25, ⟨0, 1, 0⟩⟩, ⟨0.5, ⟨0, 0, 1⟩⟩]
    let alphas : List (Stop Single) := [⟨0.625, 0.5⟩]
    Stop.Distinct colors ∧ Stop.Distinct alphas ∧
      (evaluate ⟨.ofStops colors, .ofStops alphas, .hold⟩ 0.6).toVec3 = ⟨0, 0, 1⟩ ∧
      (evaluate ⟨.ofStops colors, .ofStops alphas, .hold⟩ 0.6).a = 0.5 := by
  intro colors alphas
  have different : Stop.Distinct colors := ⟨by decide +kernel, by decide +kernel⟩
  have different' : Stop.Distinct alphas := ⟨by decide +kernel, by decide +kernel⟩
  obtain ⟨⟨-, color⟩, ⟨-, opacity⟩, -⟩ := evaluate_holds colors alphas different different' 0.6
  refine ⟨different, different', color ⟨0.5, ⟨0, 0, 1⟩⟩ ?_, opacity ⟨0.625, 0.5⟩ ?_⟩
  · exact .latest (by decide +kernel) (by decide +kernel) (by decide +kernel)
  · exact .first (by decide +kernel) (by decide +kernel) (by decide +kernel)

end Gradient

end Danmaku
