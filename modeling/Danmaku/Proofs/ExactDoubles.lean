import Danmaku.Proofs.SingleRounding
import Danmaku.SharedDraw

/-! Doubles that are not rounded. A uniform draw is a number of draw units, of `2 ^ -24` each. A double holds such a number
in full, as long as it is not too large. So the sum of two of them is exact, and so are the fraction and the ways from
a single and back. -/

namespace Danmaku

open Float.Model (UnpackedFloat Format)
open Float.Model.UnpackedFloat (ExtendedMantissa)
open Single (Truncates)

/-! Rounding to doubles. -/

namespace Double

variable {s : UnpackedFloat.Sign} {m n j k : ℕ} {e f : ℤ} {u v : UnpackedFloat}

theorem targetExponent_eq (m : ℕ) (e : ℤ) :
    Format.binary64.targetExponent (Float.Model.totalExponent m e) = max (m.log2 + 1 + e - 53) (-1074) := rfl

theorem log2_mul_two_pow (pos : 0 < m) (j : ℕ) : (m * 2 ^ j).log2 = m.log2 + j := by
  rw [← Nat.shiftLeft_eq, Single.log2_shiftLeft pos]

theorem log2_of_full (lower : 2 ^ 52 ≤ m) (upper : m < 2 ^ 53) : m.log2 = 52 := Single.log2_of_bounds lower upper

/-- A full mantissa that was made longer by zeros is cut to its length again. -/
theorem roundWithAccuracy_exact (s : UnpackedFloat.Sign) (lower : 2 ^ 52 ≤ m) (upper : m < 2 ^ 53)
    (least : -1074 ≤ e + j) :
    UnpackedFloat.roundWithAccuracy Format.binary64 s (m * 2 ^ j) e .exact =
      .finite s m (e + j) (by omega) := by
  have pos : 0 < m := by omega
  have long : (Format.binary64.targetExponent (Float.Model.totalExponent (m * 2 ^ j) e) - e).toNat = j := by
    rw [targetExponent_eq, log2_mul_two_pow pos, log2_of_full lower upper]
    push_cast
    omega
  have full : (Format.binary64.targetExponent (Float.Model.totalExponent m (e + j)) - (e + j)).toNat = 0 := by
    rw [targetExponent_eq, log2_of_full lower upper]
    omega
  have rounded : (ExtendedMantissa.ofMantissaAndAccuracy m .exact).roundedMantissa = m := rfl
  rw [UnpackedFloat.roundWithAccuracy, Single.shiftToTargetExponent_eq long, Single.shiftRight_exact]
  dsimp only
  rw [rounded, Single.shiftToTargetExponent_eq full]
  refine (dif_neg pos.ne').trans ?_
  congr 1
  exact add_zero _

/-- What has a full mantissa is its own rounding, however it is written. -/
theorem round_exact (s : UnpackedFloat.Sign) (lower : 2 ^ 52 ≤ n) (upper : n < 2 ^ 53) (least : -1074 ≤ f)
    (same : (m : ℚ) * 2 ^ e = n * 2 ^ f) :
    UnpackedFloat.round Format.binary64 s m e = .finite s n f (by omega) := by
  have log := log2_of_full lower upper
  rcases le_total f e with above | below
  · -- Written with a shorter mantissa, which is filled up with zeros first.
    obtain ⟨j, rfl⟩ : ∃ j : ℕ, e = f + j := ⟨(e - f).toNat, by omega⟩
    have long : n = m * 2 ^ j := by
      rw [zpow_add₀ two_ne_zero, zpow_natCast, mul_comm (2 ^ f), ← mul_assoc] at same
      exact_mod_cast (mul_right_cancel₀ (by positivity) same).symm
    have pos : 0 < m := Nat.pos_of_ne_zero fun zero => by
      rw [zero, Nat.zero_mul] at long
      omega
    rw [long, log2_mul_two_pow pos] at log
    have lowered : (f + j - Format.binary64.targetExponent (Float.Model.totalExponent m (f + j))).toNat = j := by
      rw [targetExponent_eq]
      omega
    rw [Single.round_eq s lowered, Nat.shiftLeft_eq, ← long, add_sub_cancel_right]
    have kept := roundWithAccuracy_exact (e := f) (j := 0) s lower upper (by omega)
    rw [pow_zero, mul_one] at kept
    rw [kept]
    congr 1
    exact add_zero f
  · -- Written with a longer mantissa, of which only zeros are cut off.
    obtain ⟨j, rfl⟩ : ∃ j : ℕ, f = e + j := ⟨(f - e).toNat, by omega⟩
    have long : m = n * 2 ^ j := by
      rw [zpow_add₀ two_ne_zero, zpow_natCast, mul_comm (2 ^ e), ← mul_assoc] at same
      exact_mod_cast mul_right_cancel₀ (by positivity) same
    have place : m.log2 = 52 + j := by rw [long, log2_mul_two_pow (by omega), log]
    have kept : (e - Format.binary64.targetExponent (Float.Model.totalExponent m e)).toNat = 0 := by
      rw [targetExponent_eq]
      omega
    rw [Single.round_eq s kept, Nat.shiftLeft_zero, Nat.cast_zero, sub_zero, long]
    exact roundWithAccuracy_exact s lower upper least

theorem normalize_of_pos (pos : 0 < m) (e : ℤ) (s : UnpackedFloat.Sign) :
    UnpackedFloat.normalize Format.binary64 m e s = UnpackedFloat.round Format.binary64 .positive m e := by
  rw [UnpackedFloat.normalize, Int.compare_eq_gt.2 (by omega)]
  rfl

end Double

/-- The unpacked number is so many draw units. A zero may have either sign. -/
inductive DrawUnits (n : ℕ) : UnpackedFloat → Prop where
  | zero (s : UnpackedFloat.Sign) (none : n = 0) : DrawUnits n (.zero s)
  | finite {m k : ℕ} (pos : 0 < m) (lower : 2 ^ 52 ≤ m) (upper : m < 2 ^ 53) (scaled : m = n * 2 ^ k) :
      DrawUnits n (.finite .positive m (-24 - k) pos)

namespace DrawUnits

variable {n n' m : ℕ} {e : ℤ} {u v : UnpackedFloat}

/-- A number of draw units is rounded to itself. -/
theorem of_round (few : n < 2 ^ 26) (same : (m : ℚ) * 2 ^ e = n * 2 ^ (-24 : ℤ)) :
    DrawUnits n (UnpackedFloat.round Format.binary64 .positive m e) := by
  rcases Nat.eq_zero_or_pos n with rfl | pos
  · have none : m = 0 := by
      rw [Nat.cast_zero, zero_mul] at same
      exact_mod_cast (mul_eq_zero.1 same).resolve_right (by positivity)
    rw [none, Single.round_zero]
    exact .zero _ rfl
  · -- The mantissa with all its bits.
    have short : n.log2 < 26 := (Nat.log2_lt pos.ne').2 few
    obtain ⟨k, hk⟩ : ∃ k, n.log2 + k = 52 := ⟨52 - n.log2, by omega⟩
    have full : (n * 2 ^ k).log2 = 52 := by rw [Double.log2_mul_two_pow pos, hk]
    obtain ⟨lower, upper⟩ := (Nat.log2_eq_iff (Nat.mul_pos pos (Nat.two_pow_pos k)).ne').1 full
    have long : (m : ℚ) * 2 ^ e = (n * 2 ^ k : ℕ) * 2 ^ (-24 - k : ℤ) := by
      rw [same, zpow_sub₀ two_ne_zero, zpow_natCast]
      push_cast
      field_simp
    rw [Double.round_exact .positive lower upper (by omega) long]
    exact .finite _ lower upper rfl

theorem unpack_pack (h : DrawUnits n u) : (Float.Model.pack u).unpack = u := by
  cases h with
  | zero s => cases s <;> rfl
  | @finite m k pos lower upper scaled =>
      have units : 0 < n := Nat.pos_of_ne_zero fun none => by
        rw [none, Nat.zero_mul] at scaled
        omega
      have bounded : k < 53 := by
        refine (Nat.pow_lt_pow_iff_right one_lt_two).1 (lt_of_le_of_lt ?_ upper)
        rw [scaled]
        exact Nat.le_mul_of_pos_left _ units
      have biased : (-24 - k : ℤ) + 1023 + 52 = (1051 - k : ℕ) := by omega
      exact Single.unpack_pack_of_normal Format.binary64 lower upper biased (by omega)
        (show 1051 - k + 1 < 2 ^ 11 by omega)

theorem rational_eq (h : DrawUnits n u) : Single.rational u = n * 2 ^ (-24 : ℤ) := by
  cases h with
  | zero s none =>
      rw [none, Nat.cast_zero, zero_mul]
      rfl
  | @finite m k pos lower upper scaled =>
      rw [Single.rational, UnpackedFloat.Sign.apply, Int.cast_natCast, scaled, zpow_sub₀ two_ne_zero, zpow_natCast]
      push_cast
      field_simp

theorem add (hu : DrawUnits n u) (hv : DrawUnits n' v) (few : n + n' < 2 ^ 26) :
    DrawUnits (n + n') (UnpackedFloat.add Format.binary64 u v) := by
  have sum : Single.rational u + Single.rational v = (n + n' : ℕ) * 2 ^ (-24 : ℤ) := by
    rw [hu.rational_eq, hv.rational_eq, ← add_mul, Nat.cast_add]
  cases hu with
  | zero s none =>
      rw [none, Nat.zero_add]
      cases hv with
      | zero r none => cases s <;> cases r <;> exact .zero _ none
      | finite pos lower upper scaled => exact .finite pos lower upper scaled
  | @finite m k pos lower upper scaled =>
      cases hv with
      | zero r none =>
          rw [none, Nat.add_zero]
          exact .finite pos lower upper scaled
      | @finite m' k' pos' lower' upper' scaled' =>
          let place : ℤ := min (-24 - k) (-24 - k')
          let total := m <<< (-24 - k - place).toNat + m' <<< (-24 - k' - place).toNat
          have total_pos : 0 < total := by
            refine Nat.add_pos_left ?_ _
            rw [Nat.shiftLeft_eq]
            exact Nat.mul_pos pos (Nat.two_pow_pos _)
          have added : UnpackedFloat.add Format.binary64 (.finite .positive m (-24 - k) pos)
              (.finite .positive m' (-24 - k') pos') =
                UnpackedFloat.normalize Format.binary64 total place .positive := rfl
          have left := Single.aligned .positive m (min_le_left (-24 - k : ℤ) (-24 - k'))
          have right := Single.aligned .positive m' (min_le_right (-24 - k : ℤ) (-24 - k'))
          rw [added, Double.normalize_of_pos total_pos]
          refine of_round few ?_
          rw [← sum, Nat.cast_add, add_mul]
          exact congrArg₂ (· + ·) left right

/-- What is left of a mantissa below the point are the draw units that make no whole. -/
theorem mod {k : ℕ} (scaled : m = n * 2 ^ k) :
    DrawUnits (n % 2 ^ 24) (UnpackedFloat.round Format.binary64 .positive (m % 2 ^ (24 + k)) (-24 - k)) := by
  refine of_round ((Nat.mod_lt n (by decide)).trans (by decide)) ?_
  rw [scaled, Nat.pow_add, Nat.mul_mod_mul_right, zpow_sub₀ two_ne_zero, zpow_natCast]
  push_cast
  field_simp

end DrawUnits

/-! Operations on doubles. -/

namespace DrawUnits

variable {n n' : ℕ} {x y : Float}

theorem float_add (hx : DrawUnits n x.toModel.unpack) (hy : DrawUnits n' y.toModel.unpack) (few : n + n' < 2 ^ 26) :
    DrawUnits (n + n') (x + y).toModel.unpack := by
  have sum := hx.add hy few
  change DrawUnits _ (Float.Model.pack (UnpackedFloat.add Format.binary64 x.toModel.unpack y.toModel.unpack)).unpack
  rwa [sum.unpack_pack]

theorem not_lt_zero (h : DrawUnits n x.toModel.unpack) : ¬x < 0 := by
  have lt_iff : x < 0 ↔ UnpackedFloat.lt x.toModel.unpack (.zero .positive) = true :=
    decide_eq_true_iff (p := x.toModel < (0 : Float).toModel)
  rw [lt_iff]
  generalize x.toModel.unpack = u at h
  cases h with
  | zero s => cases s <;> exact Bool.false_ne_true
  | finite => exact Bool.false_ne_true

theorem fraction (h : DrawUnits n x.toModel.unpack) :
    DrawUnits (n % 2 ^ 24) (SharedKey.fraction x).toModel.unpack := by
  have whole := h
  unfold SharedKey.fraction
  generalize x.toModel.unpack = u at h
  cases h with
  | zero s none =>
      subst none
      exact whole
  | @finite m k pos lower upper scaled =>
      have below : ¬(0 : ℤ) ≤ -24 - k := by omega
      have place : (-(-24 - k : ℤ)).toNat = 24 + k := by omega
      let rest : Float := .ofModel (.pack (.round Format.binary64 .positive (m % 2 ^ (24 + k)) (-24 - k)))
      have held : DrawUnits (n % 2 ^ 24) rest.toModel.unpack := by
        have rounded := mod scaled
        rwa [← rounded.unpack_pack] at rounded
      dsimp only
      rw [if_neg below, place]
      change DrawUnits _ (if rest < 0 then rest + 1 else rest).toModel.unpack
      rwa [if_neg held.not_lt_zero]

/-- Every single is a double. -/
theorem toDouble {x : Single} (finite : x.isFinite = true) (value : x.value = n * 2 ^ (-24 : ℤ)) (few : n < 2 ^ 26) :
    DrawUnits n x.toDouble.toModel.unpack := by
  rw [Single.isFinite_iff] at finite
  unfold Single.value at value
  unfold Single.toDouble
  generalize x.unpack = u at finite value
  cases u with
  | infinity | notANumber => exact finite.elim
  | zero s =>
      have none : n = 0 := by
        have zero : (n : ℚ) * 2 ^ (-24 : ℤ) = 0 := value.symm
        exact_mod_cast (mul_eq_zero.1 zero).resolve_right (by positivity)
      have held := zero s none
      rwa [← held.unpack_pack] at held
  | finite s m e pos =>
      have magnitude := Single.rational_pos (e := e) pos
      cases s with
      | negative =>
          have units : (0 : ℚ) ≤ n * 2 ^ (-24 : ℤ) := by positivity
          rw [← value, Single.rational, Single.cast_apply] at units
          simp only [UnpackedFloat.Sign.apply] at units
          push_cast at units
          linarith
      | positive =>
          have held := of_round (e := e) (m := m) few (by rw [← value]; rfl)
          dsimp only
          rwa [← held.unpack_pack] at held

theorem onGrid (few : n < 2 ^ 24) : Single.OnGrid (n * 2 ^ (-24 : ℤ)) := by
  refine ⟨n, -24, ?_, by decide, by rw [Int.cast_natCast]⟩
  rw [Nat.abs_cast]
  exact_mod_cast few.le

theorem magnitude_le (few : n < 2 ^ 24) : |(n * 2 ^ (-24 : ℤ) : ℚ)| ≤ 2 ^ (127 : ℤ) := by
  have bounded : (n : ℚ) ≤ 2 ^ 24 := by exact_mod_cast few.le
  rw [abs_of_nonneg (by positivity)]
  calc (n : ℚ) * 2 ^ (-24 : ℤ) ≤ 2 ^ 24 * 2 ^ (-24 : ℤ) := mul_le_mul_of_nonneg_right bounded (by positivity)
    _ ≤ 2 ^ (127 : ℤ) := by norm_num

/-- Below one, a number of draw units is a single. -/
theorem ofDouble (h : DrawUnits n x.toModel.unpack) (few : n < 2 ^ 24) :
    (Single.ofDouble x).isFinite = true ∧ (Single.ofDouble x).value = n * 2 ^ (-24 : ℤ) := by
  have value := h.rational_eq
  unfold Single.ofDouble
  generalize x.toModel.unpack = u at h value
  cases h with
  | zero s none =>
      rw [← value]
      cases s <;> exact ⟨rfl, rfl⟩
  | @finite m k pos lower upper scaled =>
      have rounds := Single.rounds_round .positive m (-24 - k)
      have same : (UnpackedFloat.Sign.positive.apply m : ℚ) * 2 ^ (-24 - k : ℤ) = n * 2 ^ (-24 : ℤ) := value
      rw [same] at rounds
      have packed := rounds.pack (magnitude_le few)
      exact ⟨packed.isFinite, packed.exact (onGrid few)⟩

end DrawUnits

end Danmaku
