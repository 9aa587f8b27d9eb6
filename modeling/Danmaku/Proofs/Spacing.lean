import Mathlib.Algebra.Order.Field.Rat
import Mathlib.Order.Bounds.Basic
import Mathlib.Tactic.Linarith
import Mathlib.Tactic.NormNum
import Mathlib.Tactic.Ring
import Danmaku.Proofs.Ranks

/-! Even spacing. Laying a selection out along an axis puts its bullets a gap apart, by their ranks, around the midpoint
of what they took up before, and changes nothing else. When nothing is rounded the midpoint stays where it is, the order
stays for a gap that is positive, and doing it again changes nothing where the gap is not negative. -/

namespace Danmaku

namespace Placement

variable {α : Type}

@[simp] theorem coordinate_setCoordinate (p : Placement α) (axis : Axis) (value : α) :
    (p.setCoordinate axis value).coordinate axis = value := by
  cases axis <;> rfl

@[simp] theorem setCoordinate_setCoordinate (p : Placement α) (axis : Axis) (x y : α) :
    (p.setCoordinate axis x).setCoordinate axis y = p.setCoordinate axis y := by
  cases axis <;> rfl

end Placement

namespace Formation

section Writes

variable {α : Type} {i k n : Nat}

theorem getElem?_foldl_modify_of_ne {ι : Type} (place : ι → Nat) (change : ι → Placement α → Placement α) (js : List ι)
    (bullets : Array (Placement α)) (ne : ∀ j ∈ js, place j ≠ i) :
    (js.foldl (fun bullets j => bullets.modify (place j) (change j)) bullets)[i]? = bullets[i]? := by
  induction js generalizing bullets with
  | nil => rfl
  | cons j js ih =>
      obtain ⟨first, others⟩ := List.forall_mem_cons.1 ne
      rw [List.foldl_cons, ih _ others, Array.getElem?_modify, if_neg first]

/-- Each of some different positions is written once, by its place among them. -/
theorem getElem?_foldl_zipIdx (change : Nat → Placement α → Placement α) {is : List Nat} (distinct : is.Nodup)
    (bullets : Array (Placement α)) (hk : is[k]? = some i) :
    ((is.zipIdx n).foldl (fun bullets ik => bullets.modify ik.1 (change ik.2)) bullets)[i]? =
      bullets[i]?.map (change (n + k)) := by
  induction is generalizing n k bullets with
  | nil => cases hk
  | cons j is ih =>
      obtain ⟨other, distinct⟩ := List.nodup_cons.1 distinct
      rw [List.zipIdx_cons, List.foldl_cons]
      cases k with
      | zero =>
          obtain rfl : j = i := Option.some.inj hk
          rw [getElem?_foldl_modify_of_ne Prod.fst (fun ik => change ik.2), Array.getElem?_modify, if_pos rfl]
          · rfl
          · intro ik h same
            exact other (same ▸ List.fst_mem_of_mem_zipIdx h)
      | succ k =>
          have hk : is[k]? = some i := hk
          have ne : j ≠ i := fun same => other (same ▸ List.mem_of_getElem? hk)
          rw [ih distinct _ hk, Array.getElem?_modify, if_neg ne, Nat.add_right_comm, Nat.add_assoc]

end Writes

section Center

variable {values : List Rat} {lo hi : Rat}

theorem least_eq_min : (Scalar.least : Rat → Rat → Rat) = min := by
  funext x y
  rw [min_comm, min_def_lt]
  rfl

theorem greatest_eq_max : (Scalar.greatest : Rat → Rat → Rat) = max := by
  funext x y
  rw [max_def_lt]
  rfl

/-- Some values have an extent, and their center is its midpoint. -/
theorem exists_extent (nonempty : values ≠ []) :
    ∃ lo hi, IsLeast {x | x ∈ values} lo ∧ IsGreatest {x | x ∈ values} hi ∧ center values = (lo + hi) / 2 := by
  obtain ⟨v, vs, rfl⟩ := List.exists_cons_of_ne_nil nonempty
  refine ⟨vs.foldl min v, vs.foldl max v, List.min?_eq_some_iff.1 List.min?_cons',
    List.max?_eq_some_iff.1 List.max?_cons', ?_⟩
  have numbers : (v :: vs).filter (!Scalar.isNaN ·) = v :: vs := List.filter_eq_self.2 fun _ _ => rfl
  calc center (v :: vs) = (vs.foldl Scalar.least v + vs.foldl Scalar.greatest v) * (1 / 2) := by
        rw [center, numbers]
    _ = (vs.foldl min v + vs.foldl max v) / 2 := by
        rw [least_eq_min, greatest_eq_max]
        ring

theorem center_eq (least : IsLeast {x | x ∈ values} lo) (greatest : IsGreatest {x | x ∈ values} hi) :
    center values = (lo + hi) / 2 := by
  obtain ⟨lo', hi', least', greatest', center⟩ := exists_extent (List.ne_nil_of_mem least.1)
  rw [center, least'.unique least, greatest'.unique greatest]

end Center

variable {f : Formation Rat} {axis : Axis} {gap : Rat} {i j : Nat}

/-- The midpoint of what the selection takes up along an axis. -/
def middle (f : Formation Rat) (axis : Axis) : Rat := center ((f.ranked axis).map (f.read axis))

/-- The bounds of what the selection takes up along an axis. -/
structure Extent (f : Formation Rat) (axis : Axis) (lo hi : Rat) : Prop where
  least : IsLeast {x | ∃ i ∈ f.selection, f.read axis i = x} lo
  greatest : IsGreatest {x | ∃ i ∈ f.selection, f.read axis i = x} hi

theorem mem_map_ranked : {x | x ∈ (f.ranked axis).map (f.read axis)} = {x | ∃ i ∈ f.selection, f.read axis i = x} := by
  ext x
  simp only [Set.mem_ofPred_eq, List.mem_map, (f.perm_ranked axis).mem_iff]

theorem exists_extent_of_selected (selected : f.selection ≠ []) : ∃ lo hi, f.Extent axis lo hi := by
  have nonempty : (f.ranked axis).map (f.read axis) ≠ [] := by
    intro none
    have length := (f.perm_ranked axis).length_eq
    rw [List.map_eq_nil_iff.1 none] at length
    exact selected (List.length_eq_zero_iff.1 length.symm)
  obtain ⟨lo, hi, least, greatest, -⟩ := exists_extent nonempty
  rw [mem_map_ranked] at least greatest
  exact ⟨lo, hi, least, greatest⟩

theorem Extent.middle_eq {lo hi : Rat} (h : f.Extent axis lo hi) : f.middle axis = (lo + hi) / 2 := by
  refine center_eq ?_ ?_
  · rw [mem_map_ranked]
    exact h.least
  · rw [mem_map_ranked]
    exact h.greatest

/-- What a layout gives to a rank: so many gaps from the middle as the rank is from the middle rank. -/
def valueAt (f : Formation Rat) (axis : Axis) (gap : Rat) (k : Nat) : Rat :=
  f.middle axis + gap * (k - (f.selection.length - 1) / 2)

theorem valueAt_add (k l : Nat) : f.valueAt axis gap (k + l) = f.valueAt axis gap k + gap * l := by
  rw [valueAt, valueAt]
  push_cast
  ring

/-- The values of the outer ranks bound the others, on one side or the other. -/
theorem valueAt_between (k l : Nat) :
    min (f.valueAt axis gap 0) (f.valueAt axis gap (k + l)) ≤ f.valueAt axis gap k ∧
      f.valueAt axis gap k ≤ max (f.valueAt axis gap 0) (f.valueAt axis gap (k + l)) := by
  have below : f.valueAt axis gap k = f.valueAt axis gap 0 + gap * k := by rw [← valueAt_add, Nat.zero_add]
  have above : f.valueAt axis gap (k + l) = f.valueAt axis gap k + gap * l := valueAt_add k l
  have hk : (0 : Rat) ≤ k := Nat.cast_nonneg k
  have hl : (0 : Rat) ≤ l := Nat.cast_nonneg l
  rcases le_total 0 gap with nonneg | nonpos
  · have up := mul_nonneg nonneg hk
    have up' := mul_nonneg nonneg hl
    exact ⟨min_le_of_left_le (by linarith), le_max_of_le_right (by linarith)⟩
  · have down := mul_nonpos_of_nonpos_of_nonneg nonpos hk
    have down' := mul_nonpos_of_nonpos_of_nonneg nonpos hl
    exact ⟨min_le_of_right_le (by linarith), le_max_of_le_left (by linarith)⟩

theorem valueAt_lt_valueAt_iff {k l : Nat} (pos : 0 < gap) :
    f.valueAt axis gap k < f.valueAt axis gap l ↔ k < l := by
  rw [valueAt, valueAt, add_lt_add_iff_left, mul_lt_mul_iff_of_pos_left pos, sub_lt_sub_iff_right, Nat.cast_lt]

section Ascending

variable (ascending : f.selection.Pairwise (· < ·))

include ascending

/-- A selected bullet takes the value of its rank. -/
theorem getElem?_distribute (gap : Rat) (hi : i ∈ f.selection) :
    (f.distribute axis gap).bullets[i]? =
      f.bullets[i]?.map (·.setCoordinate axis (f.valueAt axis gap (f.rank axis i))) := by
  have distinct : (f.ranked axis).Nodup := (f.perm_ranked axis).nodup_iff.2 (ascending.imp fun h => h.ne)
  have written := getElem?_foldl_zipIdx (n := 0) (fun k p => p.setCoordinate axis
    (f.middle axis - gap * ((f.ranked axis).length - 1 : ℕ) * (1 / 2) + gap * k)) distinct f.bullets
    (getElem?_rank ascending hi)
  have value : f.middle axis - gap * ((f.ranked axis).length - 1 : ℕ) * (1 / 2) + gap * (0 + f.rank axis i : ℕ) =
      f.valueAt axis gap (f.rank axis i) := by
    have pos : 1 ≤ f.selection.length := List.length_pos_of_mem hi
    rw [valueAt, (f.perm_ranked axis).length_eq, Nat.cast_sub pos, Nat.zero_add]
    push_cast
    ring
  rw [value] at written
  exact written

section Below

variable (below : ∀ i ∈ f.selection, i < f.bullets.size)

include below

theorem read_distribute (gap : Rat) (hi : i ∈ f.selection) :
    (f.distribute axis gap).read axis i = f.valueAt axis gap (f.rank axis i) := by
  obtain ⟨p, bullet⟩ : ∃ p, f.bullets[i]? = some p := ⟨_, Array.getElem?_eq_getElem (below i hi)⟩
  simp only [read, getElem?_distribute ascending gap hi, bullet, Option.map_some, Placement.coordinate_setCoordinate]

/-- What is taken up is what the ranks are given. -/
theorem read_distribute_selected (gap : Rat) (x : Rat) :
    (∃ i ∈ (f.distribute axis gap).selection, (f.distribute axis gap).read axis i = x) ↔
      ∃ k < f.selection.length, f.valueAt axis gap k = x := by
  constructor
  · rintro ⟨i, hi, rfl⟩
    exact ⟨f.rank axis i, rank_lt ascending hi, (read_distribute ascending below gap hi).symm⟩
  · rintro ⟨k, hk, rfl⟩
    have ranked : k ∈ f.selection.map (f.rank axis) := (perm_map_rank ascending).mem_iff.2 (List.mem_range.2 hk)
    obtain ⟨i, hi, rfl⟩ := List.mem_map.1 ranked
    exact ⟨i, hi, read_distribute ascending below gap hi⟩

/-- The outer ranks are as far from the middle as each other, on either side. -/
theorem extent_distribute (axis : Axis) (gap : Rat) (selected : f.selection ≠ []) :
    ∃ lo hi, (f.distribute axis gap).Extent axis lo hi ∧ (lo + hi) / 2 = f.middle axis := by
  obtain ⟨n, length⟩ := Nat.exists_eq_add_of_le' (List.length_pos_iff.2 selected)
  have outer : f.valueAt axis gap 0 + f.valueAt axis gap n = 2 * f.middle axis := by
    rw [valueAt, valueAt, length]
    push_cast
    ring
  have values : {x | ∃ i ∈ (f.distribute axis gap).selection, (f.distribute axis gap).read axis i = x} =
      {x | ∃ k < f.selection.length, f.valueAt axis gap k = x} :=
    Set.ext fun x => read_distribute_selected ascending below gap x
  have between {k : Nat} (hk : k < f.selection.length) :
      min (f.valueAt axis gap 0) (f.valueAt axis gap n) ≤ f.valueAt axis gap k ∧
        f.valueAt axis gap k ≤ max (f.valueAt axis gap 0) (f.valueAt axis gap n) := by
    obtain ⟨l, rfl⟩ : ∃ l, n = k + l := Nat.exists_eq_add_of_le (by omega)
    exact valueAt_between k l
  refine ⟨min (f.valueAt axis gap 0) (f.valueAt axis gap n), max (f.valueAt axis gap 0) (f.valueAt axis gap n),
    ⟨?_, ?_⟩, by rw [min_add_max, outer, mul_div_cancel_left₀ _ two_ne_zero]⟩
  · rw [values]
    refine ⟨?_, ?_⟩
    · rcases min_choice (f.valueAt axis gap 0) (f.valueAt axis gap n) with least | least
      · exact ⟨0, by omega, least.symm⟩
      · exact ⟨n, by omega, least.symm⟩
    · rintro _ ⟨k, hk, rfl⟩
      exact (between hk).1
  · rw [values]
    refine ⟨?_, ?_⟩
    · rcases max_choice (f.valueAt axis gap 0) (f.valueAt axis gap n) with greatest | greatest
      · exact ⟨0, by omega, greatest.symm⟩
      · exact ⟨n, by omega, greatest.symm⟩
    · rintro _ ⟨k, hk, rfl⟩
      exact (between hk).2

theorem middle_distribute (gap : Rat) (selected : f.selection ≠ []) :
    (f.distribute axis gap).middle axis = f.middle axis := by
  obtain ⟨lo, hi, extent, middle⟩ := extent_distribute ascending below axis gap selected
  rw [extent.middle_eq, middle]

/-- With a positive gap the values tell what stands before what. -/
theorem read_distribute_lt_iff (pos : 0 < gap) (hi : i ∈ f.selection) (hj : j ∈ f.selection) :
    (f.distribute axis gap).read axis i < (f.distribute axis gap).read axis j ↔
      f.standing axis i < f.standing axis j := by
  rw [read_distribute ascending below gap hi, read_distribute ascending below gap hj, valueAt_lt_valueAt_iff pos]
  exact rank_lt_rank_iff ascending hi hj

theorem rank_distribute (pos : 0 < gap) (hi : i ∈ f.selection) :
    (f.distribute axis gap).rank axis i = f.rank axis i := by
  refine List.countP_congr fun j hj => ?_
  simp only [decide_eq_true_eq]
  rw [← read_distribute_lt_iff ascending below pos hj hi]
  constructor
  · intro before
    rw [standing, standing, Prod.Lex.toLex_lt_toLex] at before
    rcases before with lt | ⟨same, lt⟩
    · exact lt
    · -- Two bullets at one value are one bullet, as each rank is taken once.
      rcases lt_trichotomy (f.standing axis j) (f.standing axis i) with first | equal | after
      · exact (read_distribute_lt_iff ascending below pos hj hi).2 first
      · exact absurd (congrArg (fun s => (ofLex s).2) equal) lt.ne
      · exact absurd same ((read_distribute_lt_iff ascending below pos hi hj).2 after).ne'
  · intro lt
    rw [standing, standing, Prod.Lex.toLex_lt_toLex]
    exact Or.inl lt

/-- What is laid out with a gap that is not negative stays where it is. -/
theorem distribute_distribute (nonneg : 0 ≤ gap) :
    (f.distribute axis gap).distribute axis gap = f.distribute axis gap := by
  have bullets : ((f.distribute axis gap).distribute axis gap).bullets = (f.distribute axis gap).bullets := by
    refine Array.ext_getElem? fun i => ?_
    by_cases hi : i ∈ f.selection
    · have selected : f.selection ≠ [] := List.ne_nil_of_mem hi
      have value : (f.distribute axis gap).valueAt axis gap ((f.distribute axis gap).rank axis i) =
          f.valueAt axis gap (f.rank axis i) := by
        rw [valueAt, valueAt, middle_distribute ascending below gap selected]
        rcases nonneg.eq_or_lt with rfl | pos
        · rw [zero_mul, zero_mul]
        · rw [rank_distribute ascending below pos hi]
          rfl
      rw [getElem?_distribute (f := f.distribute axis gap) ascending gap hi, value,
        getElem?_distribute ascending gap hi, Option.map_map]
      simp only [Function.comp_def, Placement.setCoordinate_setCoordinate]
    · exact (placed_distribute (f.distribute axis gap) axis gap).outside i hi
  change Formation.mk ((f.distribute axis gap).distribute axis gap).bullets _ _ = _
  rw [bullets]

end Below

end Ascending

/-- Laying a selection out along an axis changes no other bullet and nothing but the coordinate, where the selection is,
as in every layout, an ascending list of positions of bullets. Each of the ranks is that of one selected bullet, by the
coordinate and then by the order in the shot, and the bullet takes the value so many gaps from the midpoint of what was
taken up as its rank is from the middle rank. That midpoint stays, neighbouring ranks are a gap apart, and with a
positive gap the bullets stay in order. With a gap that is not negative, twice comes to the same as once. -/
theorem distribute_spaces (f : Formation Rat) (ascending : f.selection.Pairwise (· < ·))
    (below : ∀ i ∈ f.selection, i < f.bullets.size) (axis : Axis) (gap : Rat) :
    let g := f.distribute axis gap
    Placed f g ∧
    (f.selection.map (f.rank axis)).Perm (List.range f.selection.length) ∧
    (f.selection ≠ [] → ∃ lo hi, f.Extent axis lo hi ∧
      (∀ i ∈ f.selection, g.bullets[i]? = f.bullets[i]?.map (·.setCoordinate axis
        ((lo + hi) / 2 + gap * (f.rank axis i - (f.selection.length - 1) / 2)))) ∧
      ∃ lo' hi', g.Extent axis lo' hi' ∧ (lo' + hi') / 2 = (lo + hi) / 2) ∧
    (∀ i ∈ f.selection, ∀ j ∈ f.selection, f.rank axis j = f.rank axis i + 1 →
      g.read axis j = g.read axis i + gap) ∧
    (0 < gap → ∀ i ∈ f.selection, ∀ j ∈ f.selection,
      f.standing axis i < f.standing axis j ↔ g.read axis i < g.read axis j) ∧
    (0 ≤ gap → g.distribute axis gap = g) := by
  intro g
  refine ⟨placed_distribute f axis gap, perm_map_rank ascending, fun selected => ?_, ?_, ?_, ?_⟩
  · obtain ⟨lo, hi, extent⟩ : ∃ lo hi, f.Extent axis lo hi := exists_extent_of_selected selected
    obtain ⟨lo', hi', extent', middle⟩ := extent_distribute ascending below axis gap selected
    refine ⟨lo, hi, extent, fun i hi => ?_, lo', hi', extent', ?_⟩
    · rw [← extent.middle_eq]
      exact getElem?_distribute ascending gap hi
    · rw [middle, extent.middle_eq]
  · intro i hi j hj next
    rw [read_distribute ascending below gap hi, read_distribute ascending below gap hj, next, valueAt_add,
      Nat.cast_one, mul_one]
  · intro pos i hi j hj
    exact (read_distribute_lt_iff ascending below pos hi hj).symm
  · exact distribute_distribute ascending below

/-- Five bullets, four of them selected, of which two are at one place and the last is in front. -/
theorem distribute_spaces_with_ties :
    let at' (x : Rat) (i : Nat) : Placement Rat := ⟨⟨x, 1⟩, 0, ⟨7⟩, i⟩
    let f : Formation Rat := ⟨#[at' 3 0, at' 0 1, at' 5 2, at' 3 3, at' (-1) 4], [0, 1, 3, 4], .zero⟩
    f.selection.Pairwise (· < ·) ∧ (∀ i ∈ f.selection, i < f.bullets.size) ∧
      f.rank .x 3 = f.rank .x 0 + 1 ∧
      (f.distribute .x (1 / 2)).read .x 3 = (f.distribute .x (1 / 2)).read .x 0 + 1 / 2 ∧
      (f.distribute .x (1 / 2)).distribute .x (1 / 2) = f.distribute .x (1 / 2) := by
  intro at' f
  have ascending : f.selection.Pairwise (· < ·) := by decide
  have below : ∀ i ∈ f.selection, i < f.bullets.size := by decide
  have next : f.rank .x 3 = f.rank .x 0 + 1 := by decide +kernel
  obtain ⟨-, -, -, neighbours, -, again⟩ := distribute_spaces f ascending below .x (1 / 2)
  exact ⟨ascending, below, next, neighbours 0 (by decide) 3 (by decide) next, again (by norm_num)⟩

end Formation

end Danmaku
