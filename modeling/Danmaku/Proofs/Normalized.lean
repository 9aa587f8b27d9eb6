import Danmaku.Proofs.SingleQuotients
import Danmaku.Proofs.TotalOrder
import Danmaku.Proofs.Unselected

/-! Normalized layouts. When a layout is done, its headings are taken modulo a full turn and its places within the
bounding box. This gives headings in `[0, 360)` and places in `[0, 1]` for all numbers that steps can lead to, tiny,
negative or large, as long as they are finite; where a sum in the steps or the extent of the shot has become infinite, or
a position is none, it gives no number. -/

namespace Danmaku

namespace Heading

theorem normalize_between {degrees : Single} (finite : degrees.isFinite = true) :
    0 ≤ normalize degrees ∧ normalize degrees < 360 := by
  obtain ⟨lower, upper⟩ := Single.modulo_between (y := 360) finite rfl (by decide) (by decide)
  unfold normalize
  dsimp only
  split
  · decide
  · rename_i below
    exact ⟨lower, (Single.lt_iff_not_le (Single.isNaN_of_le lower).2 rfl).2 below⟩

theorem isNaN_normalize {degrees : Single} (infinite : degrees.isFinite = false) :
    (normalize degrees).isNaN = true := by
  have nan := Single.isNaN_modulo (y := 360) infinite rfl
  unfold normalize
  dsimp only
  split
  · rename_i above
    rw [(Single.isNaN_of_le above).2] at nan
    cases nan
  · exact nan

/-- The heading of a bullet is normalized exactly if it is finite. -/
theorem normalize_between_iff {degrees : Single} :
    0 ≤ normalize degrees ∧ normalize degrees < 360 ↔ degrees.isFinite = true := by
  refine ⟨fun between => ?_, normalize_between⟩
  by_contra infinite
  have nan := isNaN_normalize (Bool.eq_false_iff.2 infinite)
  rw [(Single.isNaN_of_le between.1).2] at nan
  cases nan

end Heading

namespace Formation

/-! Bounds. -/

/-- A fold that keeps one of two numbers, where the kept one stands in an order to both, ends in a number that stands so
to all. -/
theorem foldl_pick (R : Single → Single → Prop) (pick : Single → Single → Single)
    (trans : ∀ {x y z}, R x y → R y z → R x z) (refl : ∀ {x : Single}, x.isNaN = false → R x x)
    (picks : ∀ {x y : Single}, x.isNaN = false → y.isNaN = false →
      (pick x y = x ∨ pick x y = y) ∧ R (pick x y) x ∧ R (pick x y) y)
    {values : List Single} (numbers : ∀ x ∈ values, x.isNaN = false) (first : Single) (number : first.isNaN = false) :
    (values.foldl pick first = first ∨ values.foldl pick first ∈ values) ∧ R (values.foldl pick first) first ∧
      ∀ x ∈ values, R (values.foldl pick first) x := by
  induction values generalizing first with
  | nil => exact ⟨.inl rfl, refl number, nofun⟩
  | cons x values ih =>
      obtain ⟨hx, numbers⟩ := List.forall_mem_cons.1 numbers
      obtain ⟨mem, before, here⟩ := picks number hx
      have kept : (pick first x).isNaN = false := by rcases mem with mem | mem <;> rwa [mem]
      obtain ⟨found, reaches, rest⟩ := ih numbers (pick first x) kept
      rw [List.foldl_cons]
      refine ⟨?_, trans reaches before, List.forall_mem_cons.2 ⟨trans reaches here, rest⟩⟩
      rcases found with found | found
      · rw [found]
        refine mem.imp_right fun mem => ?_
        rw [mem]
        exact List.mem_cons_self
      · exact .inr (List.mem_cons_of_mem _ found)

theorem bounds_eq (values : List Single) : bounds values =
    (values.foldl (fun lo x => if lo < x then lo else x) .infinity,
      values.foldl (fun hi x => if x < hi then hi else x) (-.infinity)) := by
  have from_first (first : Single × Single) : values.foldl
      (fun b x => (if b.1 < x then b.1 else x, if x < b.2 then b.2 else x)) first =
        (values.foldl (fun lo x => if lo < x then lo else x) first.1,
          values.foldl (fun hi x => if x < hi then hi else x) first.2) := by
    induction values generalizing first with
    | nil => rfl
    | cons x values ih => exact ih _
  exact from_first _

/-- Numbers lie within their bounds, and some number is at the upper one. -/
theorem bounds_spec {values : List Single} (numbers : ∀ x ∈ values, x.isNaN = false) (some : values ≠ []) :
    (∀ x ∈ values, (bounds values).1 ≤ x ∧ x ≤ (bounds values).2) ∧ (bounds values).2 ∈ values := by
  obtain ⟨-, -, low⟩ := foldl_pick (· ≤ ·) (fun lo x => if lo < x then lo else x)
    Single.le_trans Single.le_refl (fun hx hy => by
      split
      · exact ⟨.inl rfl, Single.le_refl hx, Single.le_of_lt ‹_›⟩
      · exact ⟨.inr rfl, Single.le_of_not_lt hx hy ‹_›, Single.le_refl hy⟩)
    numbers .infinity rfl
  obtain ⟨mem, -, high⟩ := foldl_pick (· ≥ ·) (fun hi x => if x < hi then hi else x)
    (fun h h' => Single.le_trans h' h) Single.le_refl (fun hx hy => by
      split
      · exact ⟨.inl rfl, Single.le_refl hx, Single.le_of_lt ‹_›⟩
      · exact ⟨.inr rfl, Single.le_of_not_lt hy hx ‹_›, Single.le_refl hy⟩)
    numbers (-.infinity) rfl
  rw [bounds_eq]
  refine ⟨fun x hx => ⟨low x hx, high x hx⟩, ?_⟩
  rcases mem with first | mem
  · -- No number is above the first bound, so all of them are equal to it.
    obtain ⟨x, hx⟩ := List.exists_mem_of_ne_nil values some
    have least := high x hx
    rw [first] at least ⊢
    rwa [← Single.eq_neg_infinity least]
  · exact mem

/-! Places. -/

/-- How far it is from the lower bound to the upper one. -/
def extent (values : List Single) : Single := (bounds values).2 - (bounds values).1

/-- If there is an extent to measure in, it is finite, and there is no NaN among the values. -/
def Measurable (values : List Single) : Prop :=
  Single.epsilon < extent values → (extent values).isFinite = true ∧ ∀ x ∈ values, x.isNaN = false

theorem place_eq (values : List Single) (x : Single) : place (bounds values) x =
    if Single.epsilon < extent values then (x - (bounds values).1) / extent values else 0.5 := rfl

theorem place_between {values : List Single} (h : Measurable values) {x : Single} (hx : x ∈ values) :
    0 ≤ place (bounds values) x ∧ place (bounds values) x ≤ 1 := by
  rw [place_eq]
  split
  · rename_i wide
    obtain ⟨finite, numbers⟩ := h wide
    obtain ⟨lower, upper⟩ := (bounds_spec numbers (List.ne_nil_of_mem hx)).1 x hx
    obtain ⟨part, nonneg, le⟩ := Single.part_of_extent finite lower upper
    have pos : 0 < (extent values).value := by
      have above : (0 : Single) ≤ Single.epsilon := by decide
      rw [← Single.value_zero, ← not_le, ← Single.le_iff_value_le finite rfl]
      exact fun flat => Single.not_le_of_lt wide (Single.le_trans flat above)
    exact Single.div_between part finite pos nonneg le
  · decide

/-- A NaN has no place, and neither has the greatest number in an infinite extent. -/
theorem measurable_of_places {values : List Single}
    (h : ∀ x ∈ values, 0 ≤ place (bounds values) x ∧ place (bounds values) x ≤ 1) : Measurable values := by
  intro wide
  have number {x : Single} (hx : x ∈ values) : ((x - (bounds values).1) / extent values).isNaN = false := by
    have between := h x hx
    rw [place_eq, if_pos wide] at between
    exact (Single.isNaN_of_le between.1).2
  have numbers : ∀ x ∈ values, x.isNaN = false := by
    intro x hx
    by_contra nan
    rw [Bool.not_eq_false] at nan
    exact Bool.eq_false_iff.1 (number hx) (Single.isNaN_combine (.inl (Single.isNaN_combine (.inl nan))))
  refine ⟨?_, numbers⟩
  by_contra infinite
  have some : values ≠ [] := by
    rintro rfl
    exact absurd wide (by decide)
  have whole := number (bounds_spec numbers some).2
  have positive : 0 ≤ extent values := Single.le_trans (by decide) (Single.le_of_lt wide)
  have top : extent values = .infinity := Single.eq_infinity positive (Bool.eq_false_iff.2 infinite)
  change (extent values / extent values).isNaN = false at whole
  rw [top] at whole
  exact absurd whole (by decide)

theorem places_between_iff (values : List Single) :
    (∀ x ∈ values, 0 ≤ place (bounds values) x ∧ place (bounds values) x ≤ 1) ↔ Measurable values :=
  ⟨measurable_of_places, fun h _ => place_between h⟩

/-! Layouts. -/

/-- All bullets of a layout have a heading in `[0, 360)` and a place in the unit square exactly if the steps end in finite
headings, and in positions that can be measured. -/
theorem layOut_normalized_iff (count : Nat) (bullet : AssetId) (steps : List Placing) :
    let bullets := (afterSteps count bullet steps).bullets.toList
    (∀ s ∈ layOut count bullet steps, (0 ≤ s.heading ∧ s.heading < 360) ∧
      (0 ≤ s.placeInShot.x ∧ s.placeInShot.x ≤ 1) ∧ 0 ≤ s.placeInShot.y ∧ s.placeInShot.y ≤ 1) ↔
    (∀ p ∈ bullets, p.heading.isFinite = true) ∧
      Measurable (bullets.map (·.position.x)) ∧ Measurable (bullets.map (·.position.y)) := by
  intro bullets
  rw [← places_between_iff, ← places_between_iff, List.forall_mem_map, List.forall_mem_map]
  change (∀ s ∈ (afterSteps count bullet steps).finish, _) ↔ _
  unfold finish
  dsimp only
  rw [List.forall_mem_map]
  simp only [Heading.normalize_between_iff, forall_and]
  rfl

/-- Finite steps lead past the greatest finite number, to headings that are none and to a place that is none. -/
theorem layOut_overflows :
    let far : Single := 3e38
    let steps : List Placing := [.space .heading far, .select (.indices [0]), .translate ⟨-far, 0⟩,
      .select (.indices [2]), .translate ⟨far, 0⟩]
    far.isFinite = true ∧ (-far).isFinite = true ∧
    (∃ s ∈ layOut 3 ⟨7⟩ steps, ¬(0 ≤ s.heading ∧ s.heading < 360)) ∧
    ∃ s ∈ layOut 3 ⟨7⟩ steps, ¬(0 ≤ s.placeInShot.x ∧ s.placeInShot.x ≤ 1) := by
  decide +kernel

end Formation

end Danmaku
