import Danmaku.Blendable
import Danmaku.Proofs.SingleRounding

/-! Blends of integers. Integers are blended as singles: both ends are rounded, the complement of the factor, both
products and their sum, and last the result, to an integer. Below `2 ^ 22` the errors come to less than half an
integer, so the blend lies between its ends. Above, it can miss them, by the magnitude of the larger end over `2 ^ 22`
at most. -/

namespace Danmaku

namespace Single

variable {x y t : Single}

/-! The nearest integer. -/

/-- Half of the divisor is added before the division. -/
theorem abs_div_add_half_sub_le (m k : ℕ) : |(((m + 2 ^ k) / 2 ^ (k + 1) : ℕ) : ℚ) - m / 2 ^ (k + 1)| ≤ 1 / 2 := by
  have lower : (m + 2 ^ k) / 2 ^ (k + 1) * 2 ^ (k + 1) ≤ m + 2 ^ k := Nat.div_mul_le_self _ _
  have upper : m + 2 ^ k < 2 ^ (k + 1) * ((m + 2 ^ k) / 2 ^ (k + 1) + 1) := Nat.lt_mul_div_succ _ (Nat.two_pow_pos _)
  generalize (m + 2 ^ k) / 2 ^ (k + 1) = z at lower upper ⊢
  have lower : (z : ℚ) * 2 ^ (k + 1) ≤ m + 2 ^ k := by exact_mod_cast lower
  have upper : (m : ℚ) + 2 ^ k ≤ 2 ^ (k + 1) * (z + 1) := by exact_mod_cast upper.le
  have pos : (0 : ℚ) < 2 ^ (k + 1) := by positivity
  have half : (2 : ℚ) ^ (k + 1) = 2 * 2 ^ k := by rw [pow_succ, mul_comm]
  rw [abs_sub_comm, abs_le, neg_le_sub_iff_le_add, sub_le_iff_le_add, ← sub_le_iff_le_add, le_div_iff₀ pos,
    div_le_iff₀ pos]
  constructor <;> linarith

theorem nearestInt?_of_isFinite (h : x.isFinite = true) : ∃ z : ℤ, x.nearestInt? = some z ∧ |z - x.value| ≤ 1 / 2 := by
  rw [isFinite_iff] at h
  rw [nearestInt?, value]
  cases u : x.unpack with
  | infinity | notANumber =>
      rw [u] at h
      exact h.elim
  | zero s => exact ⟨0, rfl, by norm_num [rational]⟩
  | finite s m e pos =>
      refine ⟨_, rfl, ?_⟩
      rw [rational, cast_apply, cast_apply s m, mul_assoc, ← mul_sub, abs_cast_apply]
      by_cases whole : 0 ≤ e
      · obtain ⟨k, rfl⟩ := Int.eq_ofNat_of_zero_le whole
        rw [if_pos whole, Int.toNat_natCast, Nat.shiftLeft_eq, zpow_natCast]
        norm_num
      · obtain ⟨k, rfl⟩ : ∃ k : ℕ, e = -(k + 1 : ℕ) := ⟨(-e).toNat - 1, by omega⟩
        rw [if_neg whole, neg_neg, Int.toNat_natCast, Nat.add_sub_cancel, Nat.shiftRight_eq_div_pow, Nat.one_shiftLeft,
          zpow_neg, zpow_natCast, ← div_eq_mul_inv]
        exact abs_div_add_half_sub_le m k

/-- What is less than one half beyond a range of integers is rounded into the range, and moved into that of words. -/
theorem nearestInt32_between {lower upper : ℤ} (h : x.isFinite = true) (above : (lower : ℚ) - 1 / 2 < x.value)
    (below : x.value < upper + 1 / 2) (lower_le : lower ≤ Int32.maxValue.toInt)
    (le_upper : Int32.minValue.toInt ≤ upper) :
    lower ≤ x.nearestInt32.toInt ∧ x.nearestInt32.toInt ≤ upper := by
  obtain ⟨z, some, near⟩ := nearestInt?_of_isFinite h
  obtain ⟨near, near'⟩ := abs_le.1 near
  have lower_le_z : lower - 1 < z := by
    have : ((lower - 1 : ℤ) : ℚ) < z := by
      rw [Int.cast_sub, Int.cast_one]
      linarith
    exact Int.cast_lt.1 this
  have z_le_upper : z < upper + 1 := by
    have : (z : ℚ) < (upper + 1 : ℤ) := by
      rw [Int.cast_add, Int.cast_one]
      linarith
    exact Int.cast_lt.1 this
  have lowest : Int32.minValue.toInt = -2 ^ 31 := rfl
  have highest : Int32.maxValue.toInt = 2 ^ 31 - 1 := rfl
  rw [nearestInt32, some]
  dsimp only
  split
  · omega
  · split
    · omega
    · rw [Int32.toInt_ofInt_of_le (by omega) (by omega)]
      omega

/-! The blend of numbers, and how that of singles is rounded. -/

/-- The blend of numbers, without rounding. -/
def mix (a b r : ℚ) : ℚ := a * (1 - r) + b * r

section

variable {a b r : ℚ} (zero_le : 0 ≤ r) (le_one : r ≤ 1)

include zero_le le_one

theorem mix_between : min a b ≤ mix a b r ∧ mix a b r ≤ max a b := by
  have rest : 0 ≤ 1 - r := sub_nonneg.2 le_one
  constructor
  · calc min a b = min a b * (1 - r) + min a b * r := by ring
      _ ≤ a * (1 - r) + b * r := add_le_add (mul_le_mul_of_nonneg_right (min_le_left a b) rest)
          (mul_le_mul_of_nonneg_right (min_le_right a b) zero_le)
  · calc a * (1 - r) + b * r ≤ max a b * (1 - r) + max a b * r :=
          add_le_add (mul_le_mul_of_nonneg_right (le_max_left a b) rest)
            (mul_le_mul_of_nonneg_right (le_max_right a b) zero_le)
      _ = max a b := by ring

theorem abs_mix_le {c : ℚ} (ha : |a| ≤ c) (hb : |b| ≤ c) : |mix a b r| ≤ c := by
  obtain ⟨lower, upper⟩ := mix_between (a := a) (b := b) zero_le le_one
  obtain ⟨ha, ha'⟩ := abs_le.1 ha
  obtain ⟨hb, hb'⟩ := abs_le.1 hb
  exact abs_le.2 ⟨(le_min ha hb).trans lower, upper.trans (max_le ha' hb')⟩

end

/-- The roundings in a blend: of the complement of the factor, of both products, and of their sum. -/
structure BlendRounds (x y t : Single) : Prop where
  complement : Rounds (1 - t.value) (1 - t).unpack
  left : Rounds (x.value * (1 - t).value) (x * (1 - t)).unpack
  right : Rounds (y.value * t.value) (y * t).unpack
  sum : Rounds ((x * (1 - t)).value + (y * t).value) (x.lerp y t).unpack

theorem abs_mul_le_of_unit {v w c : ℚ} (hv : |v| ≤ c) (hw : |w| ≤ 2 ^ (0 : ℤ)) : |v * w| ≤ c := by
  rw [abs_mul]
  exact (mul_le_of_le_one_right (abs_nonneg v) hw).trans hv

theorem unit_of_between {r : ℚ} (zero_le : 0 ≤ r) (le_one : r ≤ 1) : |r| ≤ 2 ^ (0 : ℤ) ∧ |1 - r| ≤ 2 ^ (0 : ℤ) := by
  rw [zpow_zero, abs_le, abs_le]
  refine ⟨⟨?_, le_one⟩, ?_, ?_⟩ <;> linarith

/-- Where the ends are not too large, nothing on the way is. -/
theorem blendRounds {k : ℤ} (hx : x.isFinite = true) (hy : y.isFinite = true) (ht : t.isFinite = true)
    (least : -149 ≤ k) (large : k ≤ 126) (x_le : |x.value| ≤ 2 ^ k) (y_le : |y.value| ≤ 2 ^ k)
    (zero_le : 0 ≤ t.value) (le_one : t.value ≤ 1) : BlendRounds x y t := by
  have wide : (2 : ℚ) ^ k ≤ 2 ^ (127 : ℤ) := zpow_le_zpow_right₀ one_le_two (by omega)
  have double : (2 : ℚ) ^ k + 2 ^ k ≤ 2 ^ (127 : ℤ) := by
    rw [← mul_two, ← zpow_add_one₀ two_ne_zero]
    exact zpow_le_zpow_right₀ one_le_two (by omega)
  obtain ⟨t_unit, rest_unit⟩ := unit_of_between zero_le le_one
  have complement : Rounds (1 - t.value) (1 - t).unpack := by
    rw [← value_one] at rest_unit ⊢
    exact rounds_value_sub rfl ht (rest_unit.trans (zpow_le_zpow_right₀ one_le_two (by decide)))
  have left_le := abs_mul_le_of_unit x_le (complement.magnitude_le (by decide) rest_unit)
  have right_le := abs_mul_le_of_unit y_le t_unit
  have left := rounds_value_mul hx complement.isFinite (left_le.trans wide)
  have right := rounds_value_mul hy ht (right_le.trans wide)
  refine ⟨complement, left, right, rounds_value_add left.isFinite right.isFinite ((abs_add_le _ _).trans ?_)⟩
  exact (add_le_add (left.magnitude_le least left_le) (right.magnitude_le least right_le)).trans double

namespace BlendRounds

variable (h : BlendRounds x y t) (zero_le : 0 ≤ t.value) (le_one : t.value ≤ 1)

include h zero_le le_one

theorem complement_error_le : |(1 - t).value - (1 - t.value)| ≤ 2 ^ (-25 : ℤ) := by
  have error := h.complement.error_le (j := 0) (by decide) (unit_of_between zero_le le_one).2
  rw [zero_sub] at error
  exact error

theorem complement_le : |(1 - t).value| ≤ 2 ^ (0 : ℤ) :=
  h.complement.magnitude_le (by decide) (unit_of_between zero_le le_one).2

/-- Before the sum is rounded, it is off by the errors of the complement and of the products. -/
theorem sum_error_le : |(x * (1 - t)).value + (y * t).value - mix x.value y.value t.value| ≤
    |x.value| * 2 ^ (-25 : ℤ) + |(x * (1 - t)).value - x.value * (1 - t).value| +
      |(y * t).value - y.value * t.value| := by
  have split : (x * (1 - t)).value + (y * t).value - mix x.value y.value t.value =
      x.value * ((1 - t).value - (1 - t.value)) + ((x * (1 - t)).value - x.value * (1 - t).value) +
        ((y * t).value - y.value * t.value) := by
    rw [mix]
    ring
  have scaled : |x.value * ((1 - t).value - (1 - t.value))| ≤ |x.value| * 2 ^ (-25 : ℤ) := by
    rw [abs_mul]
    exact mul_le_mul_of_nonneg_left (h.complement_error_le zero_le le_one) (abs_nonneg _)
  rw [split]
  exact (abs_add_three _ _ _).trans (add_le_add (add_le_add scaled le_rfl) le_rfl)

/-- Below `2 ^ 22` each step of the way is off by an eighth at most. -/
theorem error_lt_of_small {c : ℚ} (x_le : |x.value| ≤ c) (y_le : |y.value| ≤ c) (small : c ≤ 2 ^ 22 - 1) :
    |(x.lerp y t).value - mix x.value y.value t.value| < 1 / 2 := by
  have below : c ≤ 2 ^ (22 : ℤ) := small.trans (by norm_num)
  have left : |(x * (1 - t)).value - x.value * (1 - t).value| ≤ 2 ^ (22 - 25 : ℤ) :=
    h.left.error_le (by decide) (abs_mul_le_of_unit (x_le.trans below) (h.complement_le zero_le le_one))
  have right : |(y * t).value - y.value * t.value| ≤ 2 ^ (22 - 25 : ℤ) :=
    h.right.error_le (by decide) (abs_mul_le_of_unit (y_le.trans below) (unit_of_between zero_le le_one).1)
  have before := h.sum_error_le zero_le le_one
  have mix_le := abs_mix_le zero_le le_one x_le y_le
  norm_num at left right before
  have sum_le : |(x * (1 - t)).value + (y * t).value| ≤ 2 ^ (22 : ℤ) := by
    have := abs_sub_abs_le_abs_sub ((x * (1 - t)).value + (y * t).value)
      (mix x.value y.value t.value)
    norm_num
    linarith
  have last : |(x.lerp y t).value - ((x * (1 - t)).value + (y * t).value)| ≤ 2 ^ (22 - 25 : ℤ) :=
    h.sum.error_le (by decide) sum_le
  norm_num at last
  linarith [abs_sub_le (x.lerp y t).value ((x * (1 - t)).value + (y * t).value)
    (mix x.value y.value t.value)]

/-- In general the way is off by little more than five halves of the gap after `1`, relative to the ends. -/
theorem error_le {c : ℚ} (one_le : 1 ≤ c) (x_le : |x.value| ≤ c) (y_le : |y.value| ≤ c) :
    |(x.lerp y t).value - mix x.value y.value t.value| ≤ c * (81 / 32 * 2 ^ (-24 : ℤ)) := by
  have left : |(x * (1 - t)).value - x.value * (1 - t).value| ≤ _ := h.left.error_le_relative
  have right : |(y * t).value - y.value * t.value| ≤ _ := h.right.error_le_relative
  have last : |(x.lerp y t).value - ((x * (1 - t)).value + (y * t).value)| ≤ _ := h.sum.error_le_relative
  have before := h.sum_error_le zero_le le_one
  -- The magnitudes of the products add up to little more than one end.
  have products : |x.value * (1 - t).value| + |y.value * t.value| ≤ c * (1 + 2 ^ (-25 : ℤ)) := by
    have near := (abs_sub_abs_le_abs_sub _ _).trans (h.complement_error_le zero_le le_one)
    rw [abs_of_nonneg (sub_nonneg.2 le_one)] at near
    have unit : |(1 - t).value| + |t.value| ≤ 1 + 2 ^ (-25 : ℤ) := by
      rw [abs_of_nonneg zero_le]
      linarith
    calc |x.value * (1 - t).value| + |y.value * t.value| ≤ c * |(1 - t).value| + c * |t.value| := by
          rw [abs_mul, abs_mul]
          exact add_le_add (mul_le_mul_of_nonneg_right x_le (abs_nonneg _))
            (mul_le_mul_of_nonneg_right y_le (abs_nonneg _))
      _ = c * (|(1 - t).value| + |t.value|) := (mul_add _ _ _).symm
      _ ≤ c * (1 + 2 ^ (-25 : ℤ)) := mul_le_mul_of_nonneg_left unit (zero_le_one.trans one_le)
  have sum_le : |(x * (1 - t)).value + (y * t).value| ≤ |x.value * (1 - t).value| + |y.value * t.value| +
      (|(x * (1 - t)).value - x.value * (1 - t).value| + |(y * t).value - y.value * t.value|) := by
    linarith [abs_add_le (x * (1 - t)).value (y * t).value,
      abs_sub_abs_le_abs_sub (x * (1 - t)).value (x.value * (1 - t).value),
      abs_sub_abs_le_abs_sub (y * t).value (y.value * t.value)]
  norm_num at left right before last products sum_le ⊢
  linarith [abs_sub_le (x.lerp y t).value ((x * (1 - t)).value + (y * t).value)
    (mix x.value y.value t.value)]

end BlendRounds

/-! The blend of integers. -/

section

variable {m n : ℤ}

theorem value_ofInt (h : |m| ≤ 2 ^ 24) : (ofInt m).value = m :=
  (rounds_ofInt (h.trans (by decide))).exact (onGrid_intCast h)

theorem blendRounds_ofInt (hm : |m| ≤ 2 ^ 31) (hn : |n| ≤ 2 ^ 31) (ht : t.isFinite = true) (zero_le : 0 ≤ t.value)
    (le_one : t.value ≤ 1) : BlendRounds (ofInt m) (ofInt n) t := by
  have converted {k : ℤ} (hk : |k| ≤ 2 ^ 31) : (ofInt k).isFinite = true ∧ |(ofInt k).value| ≤ 2 ^ (31 : ℤ) := by
    have rounds := rounds_ofInt (hk.trans (by decide))
    exact ⟨rounds.isFinite, rounds.magnitude_le (by decide) (by exact_mod_cast hk)⟩
  obtain ⟨x_finite, x_le⟩ := converted hm
  obtain ⟨y_finite, y_le⟩ := converted hn
  exact blendRounds x_finite y_finite ht (by decide) (by decide) x_le y_le zero_le le_one

variable {M : ℕ} (hm : |m| ≤ M) (hn : |n| ≤ M) (ht : t.isFinite = true) (zero_le : 0 ≤ t.value) (le_one : t.value ≤ 1)

include hm hn ht zero_le le_one

theorem lerp_ofInt_error_lt_of_small (small : M < 2 ^ 22) :
    |((ofInt m).lerp (ofInt n) t).value - mix m n t.value| < 1 / 2 := by
  have rounds := blendRounds_ofInt (m := m) (n := n) (by omega) (by omega) ht zero_le le_one
  have small : (M : ℤ) ≤ 2 ^ 22 - 1 := by omega
  have error := rounds.error_lt_of_small zero_le le_one (c := M)
  rw [value_ofInt (by omega : |m| ≤ 2 ^ 24), value_ofInt (by omega : |n| ≤ 2 ^ 24)] at error
  exact error (by exact_mod_cast hm) (by exact_mod_cast hn) (by exact_mod_cast small)

/-- Up to `2 ^ 24` the ends are exact. -/
theorem lerp_ofInt_error_le_of_exact (one_le : 1 ≤ M) (small : M ≤ 2 ^ 24) :
    |((ofInt m).lerp (ofInt n) t).value - mix m n t.value| ≤ M * (81 / 32 * 2 ^ (-24 : ℤ)) := by
  have rounds := blendRounds_ofInt (m := m) (n := n) (by omega) (by omega) ht zero_le le_one
  have error := rounds.error_le zero_le le_one (c := M) (by exact_mod_cast one_le)
  rw [value_ofInt (by omega : |m| ≤ 2 ^ 24), value_ofInt (by omega : |n| ≤ 2 ^ 24)] at error
  exact error (by exact_mod_cast hm) (by exact_mod_cast hn)

theorem lerp_ofInt_error_le (one_le : 1 ≤ M) (large : M ≤ 2 ^ 31) :
    |((ofInt m).lerp (ofInt n) t).value - mix m n t.value| ≤ M * (57 / 16 * 2 ^ (-24 : ℤ)) := by
  have one_le : (1 : ℚ) ≤ M := by exact_mod_cast one_le
  have converted {k : ℤ} (hk : |k| ≤ M) : |(ofInt k).value - k| ≤ M * (65 / 64 * 2 ^ (-24 : ℤ)) ∧
      |(ofInt k).value| ≤ M * (1 + 2 ^ (-23 : ℤ)) := by
    have error : |(ofInt k).value - k| ≤ _ :=
      (rounds_ofInt (by omega : |k| ≤ 2 ^ 127)).error_le_relative
    have hk : |(k : ℚ)| ≤ M := by exact_mod_cast hk
    have size := abs_sub_abs_le_abs_sub (ofInt k).value k
    norm_num at error ⊢
    constructor <;> linarith
  obtain ⟨x_error, x_le⟩ := converted hm
  obtain ⟨y_error, y_le⟩ := converted hn
  have rounds := blendRounds_ofInt (m := m) (n := n) (by omega) (by omega) ht zero_le le_one
  have one_le_c : (1 : ℚ) ≤ M * (1 + 2 ^ (-23 : ℤ)) := by
    norm_num
    linarith
  have error := rounds.error_le zero_le le_one one_le_c x_le y_le
  have ends : |mix (ofInt m).value (ofInt n).value t.value - mix m n t.value| ≤
      M * (65 / 64 * 2 ^ (-24 : ℤ)) := by
    have split : mix (ofInt m).value (ofInt n).value t.value - mix m n t.value =
        mix ((ofInt m).value - m) ((ofInt n).value - n) t.value := by
      simp only [mix]
      ring
    rw [split]
    exact abs_mix_le zero_le le_one x_error y_error
  have parts := abs_sub_le ((ofInt m).lerp (ofInt n) t).value
    (mix (ofInt m).value (ofInt n).value t.value) (mix m n t.value)
  norm_num at error ends ⊢
  linarith

/-- Rounded to an integer, the blend is off by less than the magnitude of the ends over `2 ^ 22` and one. -/
theorem lerp_ofInt_error_lt (large : M ≤ 2 ^ 31) :
    |((ofInt m).lerp (ofInt n) t).value - mix m n t.value| + 1 / 2 < (M / 2 ^ 22 : ℕ) + 1 := by
  obtain ⟨q, hq⟩ : ∃ q, M / 2 ^ 22 = q := ⟨_, rfl⟩
  have above : M < (q + 1) * 2 ^ 22 := by omega
  have above : (M : ℚ) < (q + 1) * 2 ^ 22 := by exact_mod_cast above
  rw [hq]
  -- Just below `2 ^ 22` relative errors are too coarse, and just above the ends have to be exact.
  by_cases small : M < 2 ^ 22
  · have error := lerp_ofInt_error_lt_of_small hm hn ht zero_le le_one small
    have : (0 : ℚ) ≤ q := q.cast_nonneg
    linarith
  · by_cases exact : M ≤ 2 ^ 24
    · have error := lerp_ofInt_error_le_of_exact hm hn ht zero_le le_one (by omega) exact
      have : (1 : ℚ) ≤ q := by exact_mod_cast (by omega : 1 ≤ q)
      norm_num at error above
      linarith
    · have error := lerp_ofInt_error_le hm hn ht zero_le le_one (by omega) large
      have : (4 : ℚ) ≤ q := by exact_mod_cast (by omega : 4 ≤ q)
      norm_num at error above
      linarith

end

end Single

namespace Blendable

/-- A blend of integers misses their range by the larger magnitude over `2 ^ 22` at most. Below that it lies between
them. -/
theorem blend_int_near (m n : Int32) {t : Single} (zero_le : 0 ≤ t) (le_one : t ≤ 1) :
    min m.toInt n.toInt - (max m.toInt.natAbs n.toInt.natAbs / 2 ^ 22 : ℕ) ≤ (blend m n t).toInt ∧
    (blend m n t).toInt ≤ max m.toInt n.toInt + (max m.toInt.natAbs n.toInt.natAbs / 2 ^ 22 : ℕ) := by
  change _ ≤ (if t ≤ 0 then m else if 1 ≤ t then n else _ : Int32).toInt ∧
    (if t ≤ 0 then m else if 1 ≤ t then n else _ : Int32).toInt ≤ _
  split
  · omega
  · split
    · omega
    · have ht : t.isFinite = true := Single.isFinite_of_between rfl rfl zero_le le_one
      rw [Single.le_iff_value_le rfl ht, Single.value_zero] at zero_le
      rw [Single.le_iff_value_le ht rfl, Single.value_one] at le_one
      have m_le : |m.toInt| ≤ (max m.toInt.natAbs n.toInt.natAbs : ℕ) := by
        rw [Int.abs_eq_natAbs]
        omega
      have n_le : |n.toInt| ≤ (max m.toInt.natAbs n.toInt.natAbs : ℕ) := by
        rw [Int.abs_eq_natAbs]
        omega
      have large : max m.toInt.natAbs n.toInt.natAbs ≤ 2 ^ 31 := by
        have := m.le_toInt
        have := m.toInt_lt
        have := n.le_toInt
        have := n.toInt_lt
        omega
      have rounds := Single.blendRounds_ofInt (m_le.trans (by exact_mod_cast large))
        (n_le.trans (by exact_mod_cast large)) ht zero_le le_one
      have error := Single.lerp_ofInt_error_lt m_le n_le ht zero_le le_one large
      generalize max m.toInt.natAbs n.toInt.natAbs / 2 ^ 22 = slack at error ⊢
      obtain ⟨error, error'⟩ := abs_lt.1 (lt_sub_iff_add_lt.2 error)
      obtain ⟨lower, upper⟩ := Single.mix_between (a := m.toInt) (b := n.toInt) zero_le le_one
      rw [← Int.cast_min] at lower
      rw [← Int.cast_max] at upper
      have m_min := m.minValue_le_toInt
      have m_max := m.toInt_le
      refine Single.nearestInt32_between rounds.sum.isFinite ?_ ?_ (by omega) (by omega)
      · rw [Int.cast_sub, Int.cast_natCast]
        linarith
      · rw [Int.cast_add, Int.cast_natCast]
        linarith

theorem blend_int_near_half : (0 : Single) ≤ 0.5 ∧ (0.5 : Single) ≤ 1 ∧
    (-8 : ℤ) - (max 8 5 / 2 ^ 22 : ℕ) ≤ (blend (-8 : Int32) 5 (0.5 : Single)).toInt ∧
    (blend (-8 : Int32) 5 (0.5 : Single)).toInt ≤ (5 : ℤ) + (max 8 5 / 2 ^ 22 : ℕ) := by
  have zero_le : (0 : Single) ≤ 0.5 := by decide +kernel
  have le_one : (0.5 : Single) ≤ 1 := by decide +kernel
  exact ⟨zero_le, le_one, blend_int_near (-8) 5 zero_le le_one⟩

/-- An odd integer above `2 ^ 24` is no single. -/
theorem blend_int_leaves_ends : (0 : Single) ≤ 0.5 ∧ (0.5 : Single) ≤ 1 ∧
    (blend (16777217 : Int32) 16777217 (0.5 : Single)).toInt <
      min (16777217 : Int32).toInt (16777217 : Int32).toInt := by
  decide +kernel

/-- Little above `2 ^ 22` a blend already leaves its ends. -/
example : blend (4195029 : Int32) 4195029 (.ofBits 0x3934e800) = 4195030 := by decide +kernel

end Blendable

end Danmaku
