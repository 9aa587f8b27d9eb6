import Danmaku.Proofs.SingleValues

/-! How singles are rounded. The exact result of an operation is shifted to the exponent of its place with two bits
that say how much was cut off, and these decide the last bit of the mantissa. So the result is a nearest one among all
numbers on the grid of singles. This is the one fact that later bounds need: a number on the grid is its own rounding,
rounding never leads past a number on the grid, and the error is half a step of the grid at most. -/

namespace Danmaku.Single

open Float.Model (UnpackedFloat Format)
open Float.Model.UnpackedFloat (ExtendedMantissa)

/-- A mantissa with the two bits that tell what was cut off of a number. -/
def Truncates (em : ExtendedMantissa) (x : ℚ) : Prop :=
  match em.roundBit, em.stickyBit with
  | false, false => x = em.mantissa
  | false, true => em.mantissa < x ∧ x < em.mantissa + 1 / 2
  | true, false => x = em.mantissa + 1 / 2
  | true, true => em.mantissa + 1 / 2 < x ∧ x < em.mantissa + 1

namespace Truncates

variable {em : ExtendedMantissa} {x : ℚ}

theorem exact (m : ℕ) : Truncates (.ofMantissaAndAccuracy m .exact) m := rfl

theorem shiftRightOne (h : Truncates em x) : Truncates em.shiftRightOne (x / 2) := by
  obtain ⟨m, round, sticky⟩ := em
  obtain ⟨k, even | odd⟩ := Nat.even_or_odd' m
  · have halved : m / 2 = k := by omega
    have bit : (m % 2 != 0) = false := by
      rw [even, Nat.mul_mod_right]
      rfl
    have double : (m : ℚ) = 2 * k := by exact_mod_cast even
    cases round <;> cases sticky <;>
      simp only [Truncates, ExtendedMantissa.shiftRightOne, bit, halved, double, Bool.or_false, Bool.or_true] at h ⊢
    · linarith
    · constructor <;> linarith
    · constructor <;> linarith
    · constructor <;> linarith
  · have halved : m / 2 = k := by omega
    have bit : (m % 2 != 0) = true := by
      rw [odd, Nat.mul_add_mod]
      rfl
    have double : (m : ℚ) = 2 * k + 1 := by exact_mod_cast odd
    cases round <;> cases sticky <;>
      simp only [Truncates, ExtendedMantissa.shiftRightOne, bit, halved, double, Bool.or_false, Bool.or_true] at h ⊢
    · linarith
    · constructor <;> linarith
    · constructor <;> linarith
    · constructor <;> linarith

theorem shiftRight (h : Truncates em x) (n : ℕ) : Truncates (em >>> n) (x / 2 ^ n) := by
  change Truncates (n.repeat ExtendedMantissa.shiftRightOne em) _
  induction n with
  | zero => rwa [pow_zero, div_one]
  | succ n ih =>
      rw [pow_succ, ← div_div]
      exact ih.shiftRightOne

theorem mantissa_le (h : Truncates em x) : em.mantissa ≤ x ∧ x < em.mantissa + 1 := by
  obtain ⟨m, round, sticky⟩ := em
  cases round <;> cases sticky <;> simp only [Truncates] at h ⊢ <;> constructor <;> linarith

theorem abs_rounded_sub_le (h : Truncates em x) : |em.roundedMantissa - x| ≤ 1 / 2 := by
  obtain ⟨m, round, sticky⟩ := em
  cases round <;> cases sticky <;>
    simp only [Truncates, ExtendedMantissa.roundedMantissa, ExtendedMantissa.accuracy,
      UnpackedFloat.Accuracy.roundToNearestEven] at h ⊢ <;> rw [abs_le]
  · constructor <;> linarith
  · constructor <;> linarith
  · rcases Nat.mod_two_eq_zero_or_one m with even | odd
    · rw [even, Nat.add_zero]
      constructor <;> linarith
    · rw [odd]
      push_cast
      constructor <;> linarith
  · push_cast
    constructor <;> linarith

theorem le_rounded {k : ℕ} (h : Truncates em x) (lower : k ≤ x) : k ≤ em.roundedMantissa := by
  obtain ⟨below, -⟩ := abs_le.1 h.abs_rounded_sub_le
  have : (k : ℚ) < (em.roundedMantissa + 1 : ℕ) := by push_cast; linarith
  exact Nat.lt_succ_iff.1 (Nat.cast_lt.1 this)

theorem rounded_le {k : ℕ} (h : Truncates em x) (upper : x ≤ k) : em.roundedMantissa ≤ k := by
  obtain ⟨-, above⟩ := abs_le.1 h.abs_rounded_sub_le
  have : (em.roundedMantissa : ℚ) < (k + 1 : ℕ) := by push_cast; linarith
  exact Nat.lt_succ_iff.1 (Nat.cast_lt.1 this)

theorem eq_exact {m : ℕ} (h : Truncates em m) : em = .ofMantissaAndAccuracy m .exact := by
  obtain ⟨n, round, sticky⟩ := em
  cases round <;> cases sticky <;> simp only [Truncates] at h
  · rw [Nat.cast_injective h]
    rfl
  · have above : n < m := by exact_mod_cast h.1
    have below : (m : ℚ) < (n + 1 : ℕ) := by push_cast; linarith
    exact absurd (Nat.cast_lt.1 below) (by omega)
  · have above : (n : ℚ) < m := by linarith
    have below : (m : ℚ) < (n + 1 : ℕ) := by push_cast; linarith
    exact absurd (Nat.cast_lt.1 below) (Nat.not_lt.2 (Nat.cast_lt.1 above))
  · have above : (n : ℚ) < m := by linarith
    have below : (m : ℚ) < (n + 1 : ℕ) := by push_cast; linarith
    exact absurd (Nat.cast_lt.1 below) (Nat.not_lt.2 (Nat.cast_lt.1 above))

end Truncates

/-- The integer multiples of powers of two that have a mantissa of 24 bits, or are the power of two after those. -/
def OnGrid (w : ℚ) : Prop := ∃ k e : ℤ, |k| ≤ 2 ^ 24 ∧ -149 ≤ e ∧ w = k * 2 ^ e

theorem onGrid_rational {u : UnpackedFloat} (h : Canonical u) : OnGrid (rational u) := by
  cases u with
  | finite s m e pos =>
      obtain ⟨short, least, -⟩ := h
      refine ⟨s.apply m, e, ?_, least, rfl⟩
      have short : (m : ℤ) ≤ 2 ^ 24 := by exact_mod_cast short.le
      cases s with
      | negative => rwa [UnpackedFloat.Sign.apply, abs_neg, Nat.abs_cast]
      | positive => rwa [UnpackedFloat.Sign.apply, Nat.abs_cast]
  | infinity | notANumber | zero => exact ⟨0, 0, by decide, by decide, (zero_mul _).symm⟩

theorem onGrid_zpow {j : ℤ} (h : -149 ≤ j) : OnGrid (2 ^ j) :=
  ⟨1, j, by decide, h, by rw [Int.cast_one, one_mul]⟩

theorem onGrid_neg {w : ℚ} (h : OnGrid w) : OnGrid (-w) := by
  obtain ⟨k, e, bounded, least, rfl⟩ := h
  exact ⟨-k, e, by rwa [abs_neg], least, by rw [Int.cast_neg, neg_mul]⟩

theorem onGrid_intCast {k : ℤ} (h : |k| ≤ 2 ^ 24) : OnGrid k :=
  ⟨k, 0, h, by decide, by rw [zpow_zero, mul_one]⟩

/-- Half a step away at most, an integer multiple of the step is a nearest one. -/
theorem nearest_multiple {v step : ℚ} {r : ℤ} (pos : 0 < step) (half : |r * step - v| ≤ step / 2) (k : ℤ) :
    |r * step - v| ≤ |k * step - v| := by
  by_cases same : k = r
  · rw [same]
  · have apart : step ≤ |(k - r : ℤ) * step| := by
      have one : (1 : ℚ) ≤ |((k - r : ℤ) : ℚ)| := by exact_mod_cast Int.one_le_abs (sub_ne_zero.2 same)
      rw [abs_mul, abs_of_pos pos]
      exact le_mul_of_one_le_left pos.le one
    have between : |(k - r : ℤ) * step| ≤ |k * step - v| + |r * step - v| := by
      have : ((k - r : ℤ) : ℚ) * step = (k * step - v) - (r * step - v) := by push_cast; ring
      rw [this]
      exact abs_sub _ _
    linarith

/-- Half a step away at most, where the step is that of the grid, a multiple of it is a nearest one on the grid. -/
theorem nearest_onGrid {v : ℚ} {r t : ℤ} (half : |r * 2 ^ t - v| ≤ 2 ^ t / 2) (fine : t = -149 ∨ 2 ^ (t + 23) ≤ |v|)
    {w : ℚ} (h : OnGrid w) : |r * 2 ^ t - v| ≤ |w - v| := by
  obtain ⟨k, e, bounded, least, rfl⟩ := h
  have nearest := nearest_multiple (by positivity) half
  by_cases coarse : t ≤ e
  · have multiple : (k : ℚ) * 2 ^ e = (k * 2 ^ (e - t).toNat : ℤ) * 2 ^ t := by
      push_cast
      rw [← zpow_natCast, mul_assoc, ← zpow_add₀ two_ne_zero, Int.toNat_of_nonneg (by omega), sub_add_cancel]
    rw [multiple]
    exact nearest _
  · -- A finer multiple is too small for a place where this is the step.
    have far : 2 ^ (t + 23) ≤ |v| := fine.resolve_left (by omega)
    have small : |(k : ℚ) * 2 ^ e| ≤ 2 ^ (t + 23) := by
      have bounded : |(k : ℚ)| ≤ 2 ^ 24 := by exact_mod_cast bounded
      calc |(k : ℚ) * 2 ^ e| = |(k : ℚ)| * 2 ^ e := by rw [abs_mul, abs_of_pos (by positivity : (0 : ℚ) < 2 ^ e)]
        _ ≤ 2 ^ 24 * 2 ^ (t - 1) :=
            mul_le_mul bounded (zpow_le_zpow_right₀ one_le_two (by omega)) (by positivity) (by positivity)
        _ = 2 ^ (t + 23) := by
            rw [← zpow_natCast, ← zpow_add₀ two_ne_zero]
            congr 1
            push_cast
            omega
    have split : (2 : ℚ) ^ (t + 23) = (2 ^ 23 : ℤ) * 2 ^ t := by
      rw [zpow_add₀ two_ne_zero, mul_comm, Int.cast_pow]
      rfl
    have away : |v| - 2 ^ (t + 23) ≤ |k * 2 ^ e - v| := by
      have := abs_sub_abs_le_abs_sub v (k * 2 ^ e)
      rw [abs_sub_comm] at this
      linarith
    refine away.trans' ?_
    rcases abs_cases v with ⟨size, -⟩ | ⟨size, -⟩
    · have close := nearest (2 ^ 23)
      rw [← split, abs_sub_comm (2 ^ (t + 23)) v, abs_of_nonneg (show 0 ≤ v - 2 ^ (t + 23) by linarith)] at close
      linarith
    · have close := nearest (-2 ^ 23)
      rw [Int.cast_neg, neg_mul, ← split, abs_of_nonneg (show 0 ≤ -2 ^ (t + 23) - v by linarith)] at close
      linarith

/-- The rounding of a number: none on the grid is nearer. -/
structure Rounds (v : ℚ) (u : UnpackedFloat) : Prop where
  canonical : Canonical u
  hasValue : HasValue u
  nearest : ∀ w, OnGrid w → |rational u - v| ≤ |w - v|

namespace Rounds

variable {v w : ℚ} {u : UnpackedFloat}

theorem refl (canonical : Canonical u) (hasValue : HasValue u) : Rounds (rational u) u :=
  ⟨canonical, hasValue, fun w _ => by rw [sub_self, abs_zero]; exact abs_nonneg _⟩

/-- A number on the grid is its own rounding. -/
theorem exact (h : Rounds v u) (grid : OnGrid v) : rational u = v := by
  have zero := h.nearest v grid
  rw [sub_self, abs_zero] at zero
  exact sub_eq_zero.1 (abs_nonpos_iff.1 zero)

/-- Rounding does not lead up past a number on the grid. -/
theorem le (h : Rounds v u) (grid : OnGrid w) (below : v ≤ w) : rational u ≤ w := by
  have near := h.nearest w grid
  rw [abs_of_nonneg (sub_nonneg.2 below)] at near
  linarith [le_abs_self (rational u - v)]

/-- Rounding does not lead down past a number on the grid. -/
theorem ge (h : Rounds v u) (grid : OnGrid w) (above : w ≤ v) : w ≤ rational u := by
  have near := h.nearest w grid
  rw [abs_sub_comm w, abs_of_nonneg (sub_nonneg.2 above)] at near
  linarith [neg_abs_le (rational u - v)]

theorem magnitude_le {j : ℤ} (h : Rounds v u) (least : -149 ≤ j) (bounded : |v| ≤ 2 ^ j) : |rational u| ≤ 2 ^ j := by
  obtain ⟨lower, upper⟩ := abs_le.1 bounded
  exact abs_le.2 ⟨h.ge (onGrid_neg (onGrid_zpow least)) lower, h.le (onGrid_zpow least) upper⟩

/-- Of a number up to a power of two, the error is half a step of the grid below that power at most. -/
theorem error_le {j : ℤ} (h : Rounds v u) (least : -125 ≤ j) (bounded : |v| ≤ 2 ^ j) :
    |rational u - v| ≤ 2 ^ (j - 25) := by
  -- The step below the power, and the multiple of it that is nearest to the number.
  let step : ℚ := 2 ^ (j - 24)
  have pos : 0 < step := by positivity
  have near : |v / step - round (v / step)| ≤ 1 / 2 := abs_sub_round _
  have top : (2 : ℚ) ^ j = 2 ^ 24 * step := by
    rw [← zpow_natCast, ← zpow_add₀ two_ne_zero]
    congr 1
    push_cast
    omega
  have within : |v / step| ≤ 2 ^ 24 := by rwa [abs_div, abs_of_pos pos, div_le_iff₀ pos, ← top]
  have grid : OnGrid (round (v / step) * step) := by
    refine ⟨_, j - 24, ?_, by omega, rfl⟩
    obtain ⟨lower, upper⟩ := abs_le.1 near
    obtain ⟨lower', upper'⟩ := abs_le.1 within
    have small : (round (v / step) : ℚ) < (2 ^ 24 + 1 : ℤ) := by push_cast; linarith
    have large : ((-2 ^ 24 - 1 : ℤ) : ℚ) < round (v / step) := by push_cast; linarith
    have small := Int.cast_lt.1 small
    have large := Int.cast_lt.1 large
    exact abs_le.2 ⟨by omega, by omega⟩
  have split : (round (v / step) : ℚ) * step - v = -((v / step - round (v / step)) * step) := by
    field_simp
    ring
  have half : (2 : ℚ) ^ (j - 25) = 1 / 2 * step := by
    rw [one_div, ← zpow_neg_one, ← zpow_add₀ two_ne_zero]
    congr 1
    omega
  calc |rational u - v| ≤ |round (v / step) * step - v| := h.nearest _ grid
    _ = |v / step - round (v / step)| * step := by rw [split, abs_neg, abs_mul, abs_of_pos pos]
    _ ≤ 1 / 2 * step := mul_le_mul_of_nonneg_right near pos.le
    _ = 2 ^ (j - 25) := half.symm

/-- Relative to the number, the error is at most half of the gap after `1`, but for half of the least step. -/
theorem error_le_relative (h : Rounds v u) : |rational u - v| ≤ |v| * 2 ^ (-24 : ℤ) + 2 ^ (-150 : ℤ) := by
  by_cases tiny : |v| ≤ 2 ^ (-125 : ℤ)
  · exact (h.error_le le_rfl tiny).trans (le_add_of_nonneg_left (by positivity))
  · have pos : 0 < |v| := (by positivity : (0 : ℚ) ≤ 2 ^ (-125 : ℤ)).trans_lt (not_le.1 tiny)
    -- The power of two below the number.
    obtain ⟨j, lower, upper⟩ := exists_mem_Ioc_zpow pos one_lt_two
    have least : -125 < j + 1 := (zpow_lt_zpow_iff_right₀ one_lt_two).1 ((not_le.1 tiny).trans_le upper)
    have step : (2 : ℚ) ^ (j + 1 - 25) = 2 ^ j * 2 ^ (-24 : ℤ) := by
      rw [← zpow_add₀ two_ne_zero]
      congr 1
      omega
    calc |rational u - v| ≤ 2 ^ (j + 1 - 25) := h.error_le (by omega) upper
      _ = 2 ^ j * 2 ^ (-24 : ℤ) := step
      _ ≤ |v| * 2 ^ (-24 : ℤ) := mul_le_mul_of_nonneg_right lower.le (by positivity)
      _ ≤ |v| * 2 ^ (-24 : ℤ) + 2 ^ (-150 : ℤ) := le_add_of_nonneg_right (by positivity)

end Rounds

/-! The algorithm. -/

theorem targetExponent_eq (m : ℕ) (e : ℤ) :
    Format.binary32.targetExponent (Float.Model.totalExponent m e) = max (m.log2 + 1 + e - 24) (-149) := rfl

theorem ofMantissaAndAccuracy_mantissa (m : ℕ) (accuracy : UnpackedFloat.Accuracy) :
    (ExtendedMantissa.ofMantissaAndAccuracy m accuracy).mantissa = m := by
  cases accuracy with
  | exact => rfl
  | inexact o => cases o <;> rfl

theorem shiftToTargetExponent_eq {spec : Format} {m n : ℕ} {e : ℤ} {accuracy : UnpackedFloat.Accuracy}
    (h : (spec.targetExponent (Float.Model.totalExponent m e) - e).toNat = n) :
    UnpackedFloat.shiftToTargetExponent spec m e accuracy =
      (ExtendedMantissa.ofMantissaAndAccuracy m accuracy >>> n, e + n) := by
  rw [← h]
  rfl

/-- The exponent is first lowered to that of the place. -/
theorem round_eq {spec : Format} (s : UnpackedFloat.Sign) {m k : ℕ} {e : ℤ}
    (h : (e - spec.targetExponent (Float.Model.totalExponent m e)).toNat = k) :
    UnpackedFloat.round spec s m e = UnpackedFloat.roundWithAccuracy spec s (m <<< k) (e - k) .exact := by
  rw [← h]
  rfl

theorem shiftRight_exact (m j : ℕ) :
    ExtendedMantissa.ofMantissaAndAccuracy (m * 2 ^ j) .exact >>> j = .ofMantissaAndAccuracy m .exact := by
  refine Truncates.eq_exact ?_
  have shifted := (Truncates.exact (m * 2 ^ j)).shiftRight j
  rwa [Nat.cast_mul, Nat.cast_pow, Nat.cast_ofNat, mul_div_cancel_right₀ _ (by positivity)] at shifted

theorem roundWithAccuracy_zero {spec : Format} (s : UnpackedFloat.Sign) (e : ℤ) :
    UnpackedFloat.roundWithAccuracy spec s 0 e .exact = .zero s := by
  have shifted (j : ℕ) : ExtendedMantissa.ofMantissaAndAccuracy 0 .exact >>> j = .ofMantissaAndAccuracy 0 .exact := by
    have zeros := shiftRight_exact 0 j
    rwa [Nat.zero_mul] at zeros
  have rounded : (ExtendedMantissa.ofMantissaAndAccuracy 0 .exact).roundedMantissa = 0 := rfl
  rw [UnpackedFloat.roundWithAccuracy, shiftToTargetExponent_eq rfl, shifted]
  dsimp only
  rw [rounded, shiftToTargetExponent_eq rfl, shifted]
  rfl

theorem round_zero {spec : Format} (s : UnpackedFloat.Sign) (e : ℤ) : UnpackedFloat.round spec s 0 e = .zero s := by
  rw [round_eq s rfl, Nat.zero_shiftLeft]
  exact roundWithAccuracy_zero s _

theorem held_of_short {s : UnpackedFloat.Sign} {r : ℕ} {t : ℤ} (short : r < 2 ^ 24) (least : -149 ≤ t)
    (long : 2 ^ 23 ≤ r ∨ t = -149) {u : UnpackedFloat}
    (h : u = if zero : r = 0 then .zero s else .finite s r t (Nat.pos_of_ne_zero zero)) :
    Canonical u ∧ HasValue u ∧ rational u = s.apply r * 2 ^ t := by
  by_cases zero : r = 0
  · rw [dif_pos zero] at h
    subst h zero
    refine ⟨trivial, trivial, ?_⟩
    cases s <;> simp [rational, UnpackedFloat.Sign.apply]
  · rw [dif_neg zero] at h
    subst h
    exact ⟨⟨short, least, long⟩, trivial, rfl⟩

/-- What the rounding of a mantissa comes to, which may have become too long by one bit. -/
theorem roundWithAccuracy_of_rounded {s : UnpackedFloat.Sign} {m r : ℕ} {e t : ℤ} {em : ExtendedMantissa}
    {accuracy : UnpackedFloat.Accuracy}
    (first : UnpackedFloat.shiftToTargetExponent Format.binary32 m e accuracy = (em, t))
    (rounded : em.roundedMantissa = r) (short : r ≤ 2 ^ 24) (least : -149 ≤ t) (long : 2 ^ 23 ≤ r ∨ t = -149) :
    Canonical (UnpackedFloat.roundWithAccuracy Format.binary32 s m e accuracy) ∧
    HasValue (UnpackedFloat.roundWithAccuracy Format.binary32 s m e accuracy) ∧
    rational (UnpackedFloat.roundWithAccuracy Format.binary32 s m e accuracy) = s.apply r * 2 ^ t := by
  rw [UnpackedFloat.roundWithAccuracy, first]
  dsimp only
  rw [rounded]
  rcases short.lt_or_eq with short | rfl
  · have log : r.log2 < 24 := by
      by_cases zero : r = 0
      · rw [zero]
        decide
      · exact (Nat.log2_lt zero).2 short
    have stay : (Format.binary32.targetExponent (Float.Model.totalExponent r t) - t).toNat = 0 := by
      rw [targetExponent_eq]
      omega
    rw [shiftToTargetExponent_eq stay, Nat.cast_zero, add_zero]
    exact held_of_short short least long rfl
  · have carry : (Format.binary32.targetExponent (Float.Model.totalExponent (2 ^ 24) t) - t).toNat = 1 := by
      rw [targetExponent_eq, Nat.log2_two_pow]
      omega
    have double : (s.apply (2 ^ 24 : ℕ) : ℚ) * 2 ^ t = s.apply (2 ^ 23 : ℕ) * 2 ^ (t + 1) := by
      rw [zpow_add_one₀ two_ne_zero]
      cases s <;> simp only [UnpackedFloat.Sign.apply] <;> push_cast <;> ring
    rw [shiftToTargetExponent_eq carry, double]
    exact held_of_short (by decide) (by omega) (.inl (by decide)) rfl

theorem cast_apply (s : UnpackedFloat.Sign) (m : ℕ) : ((s.apply m : ℤ) : ℚ) = s.apply 1 * m := by
  cases s <;> simp [UnpackedFloat.Sign.apply]

theorem abs_cast_apply (s : UnpackedFloat.Sign) (x : ℚ) : |(s.apply 1 : ℤ) * x| = |x| := by
  cases s <;> simp [UnpackedFloat.Sign.apply]

/-- A magnitude in multiples of a higher place. -/
theorem mul_two_zpow_eq (x : ℚ) (e : ℤ) (n : ℕ) : x * 2 ^ e = x / 2 ^ n * 2 ^ (e + n) := by
  rw [zpow_add₀ two_ne_zero, zpow_natCast]
  field_simp

/-- A magnitude of which a mantissa was cut off is rounded, if the exponent is not above that of its place. -/
theorem rounds_of_truncates (s : UnpackedFloat.Sign) {m : ℕ} {e : ℤ} {x : ℚ} {accuracy : UnpackedFloat.Accuracy}
    (truncates : Truncates (.ofMantissaAndAccuracy m accuracy) x)
    (fine : e ≤ Format.binary32.targetExponent (Float.Model.totalExponent m e)) :
    Rounds (s.apply 1 * (x * 2 ^ e)) (UnpackedFloat.roundWithAccuracy Format.binary32 s m e accuracy) := by
  obtain ⟨n, hn⟩ : ∃ n : ℕ, Format.binary32.targetExponent (Float.Model.totalExponent m e) = e + n :=
    ⟨_, by rw [Int.toNat_of_nonneg (Int.sub_nonneg.2 fine)]; omega⟩
  have shifted : UnpackedFloat.shiftToTargetExponent Format.binary32 m e accuracy =
      (ExtendedMantissa.ofMantissaAndAccuracy m accuracy >>> n, e + n) :=
    shiftToTargetExponent_eq (by omega)
  have cut := truncates.shiftRight n
  obtain ⟨floor, ceiling⟩ : (m : ℚ) ≤ x ∧ x < m + 1 := by
    have bounds := truncates.mantissa_le
    rwa [ofMantissaAndAccuracy_mantissa] at bounds
  generalize ExtendedMantissa.ofMantissaAndAccuracy m accuracy >>> n = em at shifted cut
  rw [targetExponent_eq] at hn
  have upper : x / 2 ^ n < 2 ^ 24 := by
    have : m < 2 ^ (24 + n) := Nat.lt_log2_self.trans_le (Nat.pow_le_pow_right (by decide) (by omega))
    rw [div_lt_iff₀ (by positivity), ← pow_add]
    exact ceiling.trans_le (by exact_mod_cast this)
  have lower : e + n = -149 ∨ (2 : ℚ) ^ 23 ≤ x / 2 ^ n := by
    refine or_iff_not_imp_left.2 fun above => ?_
    have pos : m ≠ 0 := by
      rintro rfl
      rw [Nat.log2_zero] at hn
      omega
    have : 2 ^ (23 + n) ≤ m := (Nat.pow_le_pow_right (by decide) (by omega)).trans (Nat.log2_self_le pos)
    rw [le_div_iff₀ (by positivity), ← pow_add]
    exact floor.trans' (by exact_mod_cast this)
  have short : em.roundedMantissa ≤ 2 ^ 24 := cut.rounded_le (by exact_mod_cast upper.le)
  have long : 2 ^ 23 ≤ em.roundedMantissa ∨ e + n = -149 :=
    lower.symm.imp_left fun lower => cut.le_rounded (by exact_mod_cast lower)
  obtain ⟨canonical, hasValue, value⟩ :=
    roundWithAccuracy_of_rounded (s := s) shifted rfl short (by omega) long
  refine ⟨canonical, hasValue, fun w grid => ?_⟩
  rw [value]
  refine nearest_onGrid ?_ (lower.imp_right fun lower => ?_) grid
  · rw [cast_apply, mul_assoc, ← mul_sub, abs_cast_apply, mul_two_zpow_eq x e n, ← sub_mul, abs_mul,
      abs_of_pos (by positivity : (0 : ℚ) < 2 ^ (e + n))]
    calc |(em.roundedMantissa : ℚ) - x / 2 ^ n| * 2 ^ (e + n) ≤ 1 / 2 * 2 ^ (e + n) :=
          mul_le_mul_of_nonneg_right cut.abs_rounded_sub_le (by positivity)
      _ = 2 ^ (e + n) / 2 := by ring
  · have nonneg : 0 ≤ x * 2 ^ e := mul_nonneg (m.cast_nonneg.trans floor) (by positivity)
    rw [abs_cast_apply, abs_of_nonneg nonneg, mul_two_zpow_eq x e n, zpow_add₀ two_ne_zero, mul_comm]
    exact mul_le_mul_of_nonneg_right lower (by positivity)

/-- A magnitude whose exponent is not above that of its place is rounded. -/
theorem rounds_roundWithAccuracy (s : UnpackedFloat.Sign) {m : ℕ} {e : ℤ}
    (fine : e ≤ Format.binary32.targetExponent (Float.Model.totalExponent m e)) :
    Rounds (s.apply m * 2 ^ e) (UnpackedFloat.roundWithAccuracy Format.binary32 s m e .exact) := by
  rw [cast_apply, mul_assoc]
  exact rounds_of_truncates s (.exact m) fine

theorem log2_shiftLeft {m : ℕ} (pos : 0 < m) (k : ℕ) : (m <<< k).log2 = m.log2 + k := by
  rw [Nat.shiftLeft_eq]
  refine log2_of_bounds ?_ ?_
  · rw [Nat.pow_add]
    exact Nat.mul_le_mul_right _ (Nat.log2_self_le pos.ne')
  · rw [Nat.add_right_comm, Nat.pow_add]
    exact Nat.mul_lt_mul_of_pos_right Nat.lt_log2_self (Nat.two_pow_pos k)

/-- Any magnitude is rounded. -/
theorem rounds_round (s : UnpackedFloat.Sign) (m : ℕ) (e : ℤ) :
    Rounds (s.apply m * 2 ^ e) (UnpackedFloat.round Format.binary32 s m e) := by
  rcases Nat.eq_zero_or_pos m with rfl | pos
  · rw [round_zero, cast_apply, Nat.cast_zero, mul_zero, zero_mul]
    exact .refl (u := .zero s) trivial trivial
  -- To lower the exponent changes neither the number nor its place.
  obtain ⟨k, hk⟩ : ∃ k, (e - Format.binary32.targetExponent (Float.Model.totalExponent m e)).toNat = k := ⟨_, rfl⟩
  have same : (s.apply (m <<< k : ℕ) : ℚ) * 2 ^ (e - k) = s.apply m * 2 ^ e := by
    rw [cast_apply, cast_apply s m, Nat.shiftLeft_eq, zpow_sub₀ two_ne_zero, zpow_natCast]
    push_cast
    field_simp
  rw [round_eq s hk, ← same]
  refine rounds_roundWithAccuracy s ?_
  rw [targetExponent_eq] at hk ⊢
  rw [log2_shiftLeft pos]
  push_cast
  omega

/-- Any integer multiple of a power of two is rounded. -/
theorem rounds_normalize (k e : ℤ) (s : UnpackedFloat.Sign) :
    Rounds (k * 2 ^ e) (UnpackedFloat.normalize Format.binary32 k e s) := by
  rw [UnpackedFloat.normalize]
  rcases lt_trichotomy k 0 with neg | rfl | pos
  · rw [Int.compare_eq_lt.2 neg]
    have rounds := rounds_round .negative (-k).toNat e
    rwa [UnpackedFloat.Sign.apply, Int.toNat_of_nonneg (by omega), neg_neg] at rounds
  · rw [Int.cast_zero, zero_mul]
    exact .refl (u := .zero s) trivial trivial
  · rw [Int.compare_eq_gt.2 pos]
    have rounds := rounds_round .positive k.toNat e
    rwa [UnpackedFloat.Sign.apply, Int.toNat_of_nonneg pos.le] at rounds

/-! Sums, differences and products. -/

/-- A mantissa at a lower exponent stands for the same number. -/
theorem aligned (s : UnpackedFloat.Sign) (m : ℕ) {e g : ℤ} (h : g ≤ e) :
    (s.apply (m <<< (e - g).toNat : ℕ) : ℚ) * 2 ^ g = s.apply m * 2 ^ e := by
  have split : (2 : ℚ) ^ e = 2 ^ (e - g).toNat * 2 ^ g := by
    rw [← zpow_natCast, ← zpow_add₀ two_ne_zero, Int.toNat_of_nonneg (by omega), sub_add_cancel]
  rw [cast_apply, cast_apply s m, Nat.shiftLeft_eq, split]
  push_cast
  ring

theorem rational_zero (s : UnpackedFloat.Sign) : rational (.zero s) = 0 := rfl

theorem rounds_zero (s : UnpackedFloat.Sign) : Rounds 0 (.zero s) := .refl (u := .zero s) trivial trivial

theorem apply_mul (s r : UnpackedFloat.Sign) (m n : ℕ) : (s * r).apply (m * n : ℕ) = s.apply m * r.apply n := by
  rw [Nat.cast_mul]
  cases s <;> cases r
  · exact (neg_mul_neg (m : ℤ) n).symm
  · exact (neg_mul (m : ℤ) n).symm
  · exact (mul_neg (m : ℤ) n).symm
  · rfl

variable {u v : UnpackedFloat}

theorem rounds_add (hu : Canonical u) (hv : Canonical v) (nu : HasValue u) (nv : HasValue v) :
    Rounds (rational u + rational v) (UnpackedFloat.add Format.binary32 u v) := by
  cases u with
  | infinity | notANumber => exact nu.elim
  | zero s =>
      rw [rational_zero, zero_add]
      cases v with
      | infinity | notANumber => exact nv.elim
      | zero r => cases s <;> cases r <;> exact rounds_zero _
      | finite => exact .refl hv trivial
  | finite s m e hm =>
      cases v with
      | infinity | notANumber => exact nv.elim
      | zero r =>
          rw [rational_zero, add_zero]
          exact .refl hu trivial
      | finite r n f hn =>
          have rounds := rounds_normalize (s.apply (m <<< (e - min e f).toNat : ℕ) +
            r.apply (n <<< (f - min e f).toNat : ℕ)) (min e f) .positive
          rwa [Int.cast_add, add_mul, aligned s m (min_le_left e f), aligned r n (min_le_right e f)] at rounds

theorem rounds_sub (hu : Canonical u) (hv : Canonical v) (nu : HasValue u) (nv : HasValue v) :
    Rounds (rational u - rational v) (UnpackedFloat.sub Format.binary32 u v) := by
  cases u with
  | infinity | notANumber => exact nu.elim
  | zero s =>
      cases v with
      | infinity | notANumber => exact nv.elim
      | zero r =>
          rw [rational_zero, rational_zero, sub_zero]
          cases s <;> cases r <;> exact rounds_zero _
      | finite r n f hn =>
          have negated : rational (.zero s) - rational (.finite r n f hn) = rational (.finite (-r) n f hn) := by
            cases r <;> simp [rational, UnpackedFloat.Sign.apply]
          rw [negated]
          exact .refl hv trivial
  | finite s m e hm =>
      cases v with
      | infinity | notANumber => exact nv.elim
      | zero r =>
          rw [rational_zero, sub_zero]
          exact .refl hu trivial
      | finite r n f hn =>
          have rounds := rounds_normalize (s.apply (m <<< (e - min e f).toNat : ℕ) -
            r.apply (n <<< (f - min e f).toNat : ℕ)) (min e f) .positive
          rwa [Int.cast_sub, sub_mul, aligned s m (min_le_left e f), aligned r n (min_le_right e f)] at rounds

theorem rounds_mul (hu : Canonical u) (hv : Canonical v) (nu : HasValue u) (nv : HasValue v) :
    Rounds (rational u * rational v) (UnpackedFloat.mul Format.binary32 u v) := by
  cases u with
  | infinity | notANumber => exact nu.elim
  | zero s =>
      rw [rational_zero, zero_mul]
      cases v with
      | infinity | notANumber => exact nv.elim
      | zero | finite => exact rounds_zero _
  | finite s m e hm =>
      cases v with
      | infinity | notANumber => exact nv.elim
      | zero =>
          rw [rational_zero, mul_zero]
          exact rounds_zero _
      | finite r n f hn =>
          -- One mantissa is long already, or both exponents are the least one.
          have fine : e + f ≤ Format.binary32.targetExponent (Float.Model.totalExponent (m * n) (e + f)) := by
            obtain ⟨-, least, long⟩ := hu
            obtain ⟨-, least', long'⟩ := hv
            rw [targetExponent_eq]
            by_cases tiny : e = -149 ∧ f = -149
            · omega
            · have : 2 ^ 23 ≤ m * n := by
                rcases long with long | rfl
                · exact long.trans (Nat.le_mul_of_pos_right m hn)
                · exact (long'.resolve_right fun h => tiny ⟨rfl, h⟩).trans (Nat.le_mul_of_pos_left n hm)
              have := (Nat.le_log2 (Nat.mul_pos hm hn).ne').2 this
              omega
          have rounds := rounds_roundWithAccuracy (s * r) fine
          have product : rational (.finite s m e hm) * rational (.finite r n f hn) =
              ((s * r).apply (m * n : ℕ) : ℚ) * 2 ^ (e + f) := by
            rw [apply_mul, zpow_add₀ two_ne_zero, Int.cast_mul]
            exact mul_mul_mul_comm _ _ _ _
          rw [product]
          exact rounds

theorem apply_neg (s : UnpackedFloat.Sign) (k : ℤ) : (-s).apply k = -s.apply k := by
  cases s with
  | negative => exact (neg_neg k).symm
  | positive => rfl

theorem rational_neg (u : UnpackedFloat) : rational u.neg = -rational u := by
  cases u with
  | finite s m e pos =>
      change (((-s).apply m : ℤ) : ℚ) * 2 ^ e = _
      rw [apply_neg, Int.cast_neg, neg_mul]
      rfl
  | infinity | notANumber | zero => exact neg_zero.symm

theorem Rounds.neg {v : ℚ} (h : Rounds v u) : Rounds (-v) u.neg where
  canonical := by
    have := h.canonical
    cases u <;> exact this
  hasValue := by
    have := h.hasValue
    cases u <;> exact this
  nearest w grid := by
    rw [rational_neg]
    calc |-rational u - -v| = |rational u - v| := by rw [neg_sub_neg, abs_sub_comm]
      _ ≤ |-w - v| := h.nearest (-w) (onGrid_neg grid)
      _ = |w - -v| := by rw [← neg_add', abs_neg, sub_neg_eq_add]

/-! Singles. -/

/-- The numbers that a single holds are those below `2 ^ 128`. -/
theorem fits_iff (canonical : Canonical u) : Fits u ↔ |rational u| < 2 ^ 128 := by
  cases u with
  | infinity | notANumber | zero =>
      refine iff_of_true trivial ?_
      simp [rational]
  | finite s m e pos =>
      obtain ⟨short, -, long⟩ := canonical
      rw [rational, cast_apply, mul_assoc, abs_cast_apply, abs_of_pos (rational_pos pos)]
      constructor
      · intro fits
        have short : (m : ℚ) < 2 ^ 24 := by exact_mod_cast short
        calc (m : ℚ) * 2 ^ e < 2 ^ 24 * 2 ^ e := mul_lt_mul_of_pos_right short (by positivity)
          _ ≤ 2 ^ 24 * 2 ^ (104 : ℤ) :=
              mul_le_mul_of_nonneg_left (zpow_le_zpow_right₀ one_le_two fits) (by positivity)
          _ = 2 ^ 128 := by norm_num
      · intro small
        by_contra large
        change ¬e ≤ 104 at large
        have long : (2 ^ 23 : ℚ) ≤ m := by exact_mod_cast long.resolve_right (by omega)
        have : (2 : ℚ) ^ 23 * 2 ^ (105 : ℤ) ≤ m * 2 ^ e :=
          mul_le_mul long (zpow_le_zpow_right₀ one_le_two (by omega)) (by positivity) (by positivity)
        norm_num at this small
        linarith

/-- What is not too large is held. -/
theorem Rounds.fits {v : ℚ} (h : Rounds v u) (small : |v| ≤ 2 ^ (127 : ℤ)) : Fits u := by
  have bounded := h.magnitude_le (by decide) small
  exact (fits_iff h.canonical).2 (bounded.trans_lt (by norm_num))

theorem Rounds.pack {v : ℚ} (h : Rounds v u) (small : |v| ≤ 2 ^ (127 : ℤ)) : Rounds v (pack u).unpack := by
  rwa [unpack_pack h.canonical (h.fits small)]

section

variable {x y : Single}

theorem Rounds.isFinite {v : ℚ} (h : Rounds v x.unpack) : x.isFinite = true := isFinite_iff.2 h.hasValue

theorem onGrid_value (x : Single) : OnGrid x.value := onGrid_rational (canonical_unpack x)

theorem rounds_value_add (hx : x.isFinite = true) (hy : y.isFinite = true)
    (small : |x.value + y.value| ≤ 2 ^ (127 : ℤ)) : Rounds (x.value + y.value) (x + y).unpack := by
  rw [add_eq_pack (isNaN_of_isFinite hx) (isNaN_of_isFinite hy)]
  exact (rounds_add (canonical_unpack x) (canonical_unpack y) (isFinite_iff.1 hx) (isFinite_iff.1 hy)).pack small

theorem rounds_value_sub (hx : x.isFinite = true) (hy : y.isFinite = true)
    (small : |x.value - y.value| ≤ 2 ^ (127 : ℤ)) : Rounds (x.value - y.value) (x - y).unpack := by
  rw [sub_eq_pack (isNaN_of_isFinite hx) (isNaN_of_isFinite hy)]
  exact (rounds_sub (canonical_unpack x) (canonical_unpack y) (isFinite_iff.1 hx) (isFinite_iff.1 hy)).pack small

theorem rounds_value_mul (hx : x.isFinite = true) (hy : y.isFinite = true)
    (small : |x.value * y.value| ≤ 2 ^ (127 : ℤ)) : Rounds (x.value * y.value) (x * y).unpack := by
  rw [mul_eq_pack (isNaN_of_isFinite hx) (isNaN_of_isFinite hy)]
  exact (rounds_mul (canonical_unpack x) (canonical_unpack y) (isFinite_iff.1 hx) (isFinite_iff.1 hy)).pack small

end

theorem unpack_ofFloat32 (f : Float32) : (ofFloat32 f).unpack = f.toModel.unpack := by
  unfold ofFloat32
  split
  · rename_i nan
    change f.toModel.unpack.isNaN = true at nan
    generalize f.toModel.unpack = u at nan
    cases u with
    | notANumber => rfl
    | _ => cases nan
  · exact unpack_eq_unpack_bits _

theorem Rounds.repack {v : ℚ} (h : Rounds v u) (small : |v| ≤ 2 ^ (127 : ℤ)) :
    Rounds v (Float32.Model.pack u).unpack := by
  have kept : (Float32.Model.pack u).unpack = u := unpack_pack_bits h.canonical (h.fits small)
  rwa [kept]

/-- A decimal without a fraction is rounded from an integer multiple of a power of two. -/
theorem rounds_ofScientific {n : ℕ} (pos : 0 < n) : Rounds n (UnpackedFloat.ofScientific Format.binary32 n 0) := by
  have scaled : UnpackedFloat.ofScientific Format.binary32 n 0 =
      UnpackedFloat.roundWithAccuracy Format.binary32 .positive (n <<< 24 * 1) (-24) .exact := by
    have early : ¬(0 : ℤ) < -((2 ^ Format.binary32.exponentBits : ℤ) + n.log2) := by
      change ¬(0 : ℤ) < -(2 ^ 8 + (n.log2 : ℤ))
      omega
    rw [UnpackedFloat.ofScientific, dif_neg pos.ne', if_neg (by decide), if_neg early, if_pos le_rfl]
    rfl
  have rounds := rounds_roundWithAccuracy .positive (m := n <<< 24) (e := -24) (by
    rw [targetExponent_eq, log2_shiftLeft pos]
    omega)
  have value : ((UnpackedFloat.Sign.positive.apply (n <<< 24 : ℕ) : ℤ) : ℚ) * 2 ^ (-24 : ℤ) = n := by
    rw [UnpackedFloat.Sign.apply, Nat.shiftLeft_eq, Int.cast_natCast, Nat.cast_mul, mul_assoc]
    norm_num
  rw [value] at rounds
  rwa [scaled, mul_one]

/-- A natural number is converted by way of a word where it is short, else as a decimal. -/
theorem rounds_ofNat {n : ℕ} (bounded : n ≤ 2 ^ 127) : Rounds n (Float32.ofNat n).toModel.unpack := by
  have small : |(n : ℚ)| ≤ 2 ^ (127 : ℤ) := by
    rw [Nat.abs_cast]
    exact_mod_cast bounded
  by_cases short : n < 2 ^ 23
  · have product : Float32.ofNat n = n.toUInt64.toFloat32 * Float32.ofBits 0x3f800000 :=
      dif_pos ⟨short, by decide⟩
    have one : rational (Float32.ofBits 0x3f800000).toModel.unpack = 1 := by
      change ((2 ^ 23 : ℤ) : ℚ) * 2 ^ (-23 : ℤ) = 1
      norm_num
    have word : n.toUInt64.toNat = n := UInt64.toNat_ofNat_of_lt' (short.trans (by decide))
    have converted : Rounds n n.toUInt64.toFloat32.toModel.unpack := by
      have rounds := rounds_normalize n.toUInt64.toNat 0 .positive
      have value : ((n.toUInt64.toNat : ℤ) : ℚ) * 2 ^ (0 : ℤ) = n := by
        rw [word, zpow_zero, mul_one, Int.cast_natCast]
      rw [value] at rounds
      exact rounds.repack small
    have exact : rational n.toUInt64.toFloat32.toModel.unpack = n :=
      converted.exact (onGrid_intCast (k := n) (by rw [Nat.abs_cast]; omega))
    have canonical : Canonical (Float32.ofBits 0x3f800000).toModel.unpack := (canonical_unpack_bits _).1
    have rounds := rounds_mul converted.canonical canonical converted.hasValue trivial
    rw [exact, one, mul_one] at rounds
    rw [product]
    exact rounds.repack small
  · have decimal : Float32.ofNat n = .ofModel (.ofScientific n 0) := dif_neg fun h => short h.1
    rw [decimal]
    exact (rounds_ofScientific (by omega)).repack small

theorem rounds_ofInt {k : ℤ} (small : |k| ≤ 2 ^ 127) : Rounds k (ofInt k).unpack := by
  rw [ofInt, unpack_ofFloat32]
  cases k with
  | ofNat n =>
      rw [Int.ofNat_eq_natCast, Nat.abs_cast] at small
      exact rounds_ofNat (by exact_mod_cast small)
  | negSucc n =>
      rw [Int.negSucc_eq, abs_neg] at small
      have small : n + 1 ≤ 2 ^ 127 := by exact_mod_cast (le_abs_self _).trans small
      have rounds := (rounds_ofNat small).neg
      rw [Int.cast_negSucc]
      refine rounds.repack ?_
      rw [abs_neg, Nat.abs_cast]
      exact_mod_cast small

end Danmaku.Single
