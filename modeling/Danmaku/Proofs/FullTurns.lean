import Mathlib.Algebra.Group.ModEq
import Mathlib.Algebra.Order.Ring.Abs
import Danmaku.Proofs.Spacing

/-! Fans of a full turn and more. A spread of headings over at least a full turn is divided by the number of the bullets
and not by that of the gaps between them, so that the last does not meet the first. That is so for one turn and a little
more, but the ends do meet wherever the way between them is a number of full turns again: two bullets spread over two
turns face the same way. -/

namespace Danmaku

namespace Formation

variable {f : Formation Rat} {axis : Axis} {base total : Rat} {i j k l : Nat}

theorem gapOf_of_full_turn {n : Nat} (several : 2 ≤ n) (turn : 360 ≤ |total|) : gapOf n .heading total = total / n := by
  have full : 360 ≤ total ∨ total ≤ -360 := (le_abs.1 turn).imp id fun h => by linarith
  exact (if_neg (Nat.not_lt.2 several)).trans (if_pos ⟨rfl, full⟩)

section Level

variable (ascending : f.selection.Pairwise (· < ·)) (level : ∀ i ∈ f.selection, f.read axis i = base)

include ascending level

/-- Bullets at one value are ranked as they are selected. -/
theorem rank_of_level (hk : f.selection[k]? = some i) : f.rank axis i = k := by
  have standing : f.selection.Pairwise fun i j => f.standing axis i < f.standing axis j := by
    refine ascending.imp_of_mem fun {i j} hi hj lt => ?_
    rw [Formation.standing, Formation.standing, Prod.Lex.toLex_lt_toLex]
    exact Or.inr ⟨(level i hi).trans (level j hj).symm, lt⟩
  obtain ⟨place, rfl⟩ := List.getElem?_eq_some_iff.1 hk
  exact countP_lt_getElem standing place

omit ascending in
theorem middle_of_level (selected : f.selection ≠ []) : f.middle axis = base := by
  obtain ⟨lo, hi, extent⟩ : ∃ lo hi, f.Extent axis lo hi := exists_extent_of_selected selected
  obtain ⟨i, hi, least⟩ := extent.least.1
  obtain ⟨j, hj, greatest⟩ := extent.greatest.1
  rw [extent.middle_eq, ← least, ← greatest, level i hi, level j hj]
  ring

variable (below : ∀ i ∈ f.selection, i < f.bullets.size)

include below

theorem read_distribute_of_level (gap : Rat) (hk : f.selection[k]? = some i) :
    (f.distribute axis gap).read axis i = base + gap * (k - (f.selection.length - 1) / 2) := by
  have hi : i ∈ f.selection := List.mem_of_getElem? hk
  rw [read_distribute ascending below gap hi, rank_of_level ascending level hk, valueAt,
    middle_of_level level (List.ne_nil_of_mem hi)]

end Level

section Turns

variable (ascending : f.selection.Pairwise (· < ·)) (below : ∀ i ∈ f.selection, i < f.bullets.size)
  (several : 2 ≤ f.selection.length) (level : ∀ i ∈ f.selection, f.read .heading i = base) (turn : 360 ≤ |total|)

include ascending below several level turn

theorem read_spread (hk : f.selection[k]? = some i) :
    (f.spread .heading total).read .heading i =
      base + total / f.selection.length * (k - (f.selection.length - 1) / 2) := by
  rw [spread, gapOf_of_full_turn several turn]
  exact read_distribute_of_level ascending level below _ hk

theorem read_spread_sub (hk : f.selection[k]? = some i) (hl : f.selection[l]? = some j) :
    (f.spread .heading total).read .heading j - (f.spread .heading total).read .heading i =
      total * (l - k) / f.selection.length := by
  rw [read_spread ascending below several level turn hk, read_spread ascending below several level turn hl]
  ring

/-- Two bullets meet where the way between them is a number of full turns. -/
theorem read_spread_modEq_iff (hk : f.selection[k]? = some i) (hl : f.selection[l]? = some j) :
    (f.spread .heading total).read .heading i ≡ (f.spread .heading total).read .heading j [PMOD 360] ↔
      ∃ t : ℤ, total * (l - k) = 360 * f.selection.length * t := by
  have count : (f.selection.length : Rat) ≠ 0 := by
    have : 0 < f.selection.length := by omega
    exact_mod_cast this.ne'
  rw [AddCommGroup.modEq_iff_zsmul, read_spread_sub ascending below several level turn hk hl]
  refine exists_congr fun t => ?_
  rw [zsmul_eq_mul, eq_div_iff count, eq_comm]
  constructor
  · intro h
    linarith
  · intro h
    linarith

/-- As long as the outer ways are shorter than a turn, all bullets are apart. -/
theorem not_read_spread_modEq (short : |total| * (f.selection.length - 1) < 360 * f.selection.length)
    (hk : f.selection[k]? = some i) (hl : f.selection[l]? = some j) (ne : k ≠ l) :
    ¬(f.spread .heading total).read .heading i ≡ (f.spread .heading total).read .heading j [PMOD 360] := by
  rw [read_spread_modEq_iff ascending below several level turn hk hl]
  rintro ⟨t, meets⟩
  obtain ⟨hk, -⟩ := List.getElem?_eq_some_iff.1 hk
  obtain ⟨hl, -⟩ := List.getElem?_eq_some_iff.1 hl
  have ways : |(l : Rat) - k| ≤ f.selection.length - 1 := by
    have hk : (k : Rat) + 1 ≤ f.selection.length := by exact_mod_cast hk
    have hl : (l : Rat) + 1 ≤ f.selection.length := by exact_mod_cast hl
    have hk' : (0 : Rat) ≤ k := Nat.cast_nonneg k
    have hl' : (0 : Rat) ≤ l := Nat.cast_nonneg l
    rw [abs_le]
    constructor <;> linarith
  have count : (0 : Rat) < 360 * f.selection.length := by
    have : 0 < f.selection.length := by omega
    positivity
  have turns : (360 * f.selection.length : Rat) * |(t : Rat)| < 360 * f.selection.length * 1 := by
    calc (360 * f.selection.length : Rat) * |(t : Rat)| = |total| * |(l : Rat) - k| := by
          rw [← abs_mul, meets, abs_mul, abs_of_pos count]
      _ ≤ |total| * (f.selection.length - 1) := mul_le_mul_of_nonneg_left ways (abs_nonneg total)
      _ < 360 * f.selection.length * 1 := by rwa [mul_one]
  have none : t = 0 := by
    have less : |(t : Rat)| < 1 := lt_of_mul_lt_mul_left turns count.le
    exact Int.abs_lt_one_iff.1 (by exact_mod_cast less)
  rw [none, Int.cast_zero, mul_zero] at meets
  rcases mul_eq_zero.1 meets with zero | same
  · rw [zero, abs_zero] at turn
    exact absurd turn (by norm_num)
  · exact ne (by exact_mod_cast (sub_eq_zero.1 same).symm)

end Turns

/-- Bullets of one heading that are spread over a full turn or more, where the selection is, as in every layout, an
ascending list of positions of bullets. When nothing is rounded, each is turned from the common heading by so many gaps
as its place is from the middle, with a gap of the total divided by their number `n`. The last meets the first exactly
if the total times `(n - 1) / n` is a number of full turns. So all of them are apart while the total is less than
`n / (n - 1)` turns. -/
theorem spread_meets_iff (f : Formation Rat) (base total : Rat) (ascending : f.selection.Pairwise (· < ·))
    (below : ∀ i ∈ f.selection, i < f.bullets.size) (several : 2 ≤ f.selection.length)
    (level : ∀ i ∈ f.selection, f.read .heading i = base) (turn : 360 ≤ |total|) :
    let g := f.spread .heading total
    let n := f.selection.length
    (∀ k i : Nat, f.selection[k]? = some i → g.read .heading i = base + total / n * (k - (n - 1) / 2)) ∧
    (∀ first ∈ f.selection.head?, ∀ last ∈ f.selection.getLast?,
      g.read .heading first ≡ g.read .heading last [PMOD 360] ↔ ∃ t : ℤ, total * (n - 1) = 360 * n * t) ∧
    (|total| * (n - 1) < 360 * n → ∀ i ∈ f.selection, ∀ j ∈ f.selection, i ≠ j →
      ¬g.read .heading i ≡ g.read .heading j [PMOD 360]) := by
  intro g n
  refine ⟨fun k i hk => read_spread ascending below several level turn hk, fun first hfirst last hlast => ?_,
    fun short i hi j hj ne => ?_⟩
  · rw [Option.mem_def, List.head?_eq_getElem?] at hfirst
    rw [Option.mem_def, List.getLast?_eq_getElem?] at hlast
    have meets := read_spread_modEq_iff ascending below several level turn hfirst hlast
    have ways : ((n - 1 : ℕ) : Rat) - (0 : ℕ) = n - 1 := by
      rw [Nat.cast_sub (one_le_two.trans several), Nat.cast_one, Nat.cast_zero, sub_zero]
    rwa [ways] at meets
  · obtain ⟨k, hk⟩ := List.getElem?_of_mem hi
    obtain ⟨l, hl⟩ := List.getElem?_of_mem hj
    refine not_read_spread_modEq ascending below several level turn short hk hl fun same => ne ?_
    rw [same, hl] at hk
    exact Option.some.inj hk.symm

/-- Four bullets around the full circle. -/
theorem spread_meets_iff_around :
    let f : Formation Rat := start 4 ⟨7⟩
    let g := f.spread .heading 360
    f.selection.Pairwise (· < ·) ∧ (∀ i ∈ f.selection, i < f.bullets.size) ∧ 2 ≤ f.selection.length ∧
    (∀ i ∈ f.selection, f.read .heading i = 0) ∧ 360 ≤ |(360 : Rat)| ∧
    g.read .heading 3 = 135 ∧ ¬g.read .heading 0 ≡ g.read .heading 3 [PMOD 360] := by
  intro f g
  have ascending : f.selection.Pairwise (· < ·) := by decide
  have below : ∀ i ∈ f.selection, i < f.bullets.size := by decide
  have several : 2 ≤ f.selection.length := by decide
  have level : ∀ i ∈ f.selection, f.read .heading i = 0 := by decide
  have turn : 360 ≤ |(360 : Rat)| := le_abs_self 360
  obtain ⟨headings, -, apart⟩ := spread_meets_iff f 0 360 ascending below several level turn
  have count : (f.selection.length : Rat) = 4 := rfl
  rw [count] at headings apart
  refine ⟨ascending, below, several, level, turn, ?_, ?_⟩
  · rw [headings 3 3 rfl]
    norm_num
  · exact apart (by norm_num) 0 (by decide) 3 (by decide) (by decide)

/-- Over two turns, two bullets meet: both face backward. -/
theorem spread_double_turn_meets :
    (¬∀ (f : Formation Rat) (base total : Rat), f.selection.Pairwise (· < ·) →
      (∀ i ∈ f.selection, i < f.bullets.size) → 2 ≤ f.selection.length →
      (∀ i ∈ f.selection, f.read .heading i = base) → 360 ≤ |total| →
      ∀ first ∈ f.selection.head?, ∀ last ∈ f.selection.getLast?,
        ¬(f.spread .heading total).read .heading first ≡ (f.spread .heading total).read .heading last [PMOD 360]) ∧
    (layOut 2 ⟨7⟩ [.spread .heading 720]).map (·.heading) = [180, 180] := by
  refine ⟨fun apart => ?_, by decide +kernel⟩
  have turn : 360 ≤ |(720 : Rat)| := le_trans (by norm_num) (le_abs_self 720)
  refine apart (start 2 ⟨7⟩) 0 720 (by decide) (by decide) (by decide) (by decide) turn 0 rfl 1 rfl ?_
  have first : ((start 2 ⟨7⟩ : Formation Rat).spread .heading 720).read .heading 0 = -180 := by decide +kernel
  have last : ((start 2 ⟨7⟩ : Formation Rat).spread .heading 720).read .heading 1 = 180 := by decide +kernel
  rw [first, last]
  exact AddCommGroup.modEq_iff_zsmul.2 ⟨1, by norm_num⟩

end Formation

end Danmaku
