import Danmaku.Codec
import Danmaku.Proofs.ExactDoubles
import Danmaku.Proofs.SingleArithmetic

/-! What numerals are read as. A decimal is scaled by powers of ten that are finite and not zero, in steps that round.
No such step makes a NaN of a number, and neither does the way from a double to a single, so no numeral is read as a
NaN, however great or small it is. -/

namespace Danmaku

open Float.Model (UnpackedFloat Format)

section

variable {spec : Format} {u : UnpackedFloat}

theorem roundWithAccuracy_ne_notANumber (s : UnpackedFloat.Sign) (m : ℕ) (e : ℤ) (accuracy : UnpackedFloat.Accuracy) :
    UnpackedFloat.roundWithAccuracy spec s m e accuracy ≠ .notANumber := by
  unfold UnpackedFloat.roundWithAccuracy
  dsimp only
  split
  · nofun
  · nofun

theorem normalize_ne_notANumber (k e : ℤ) (s : UnpackedFloat.Sign) :
    UnpackedFloat.normalize spec k e s ≠ .notANumber := by
  unfold UnpackedFloat.normalize
  split
  · exact roundWithAccuracy_ne_notANumber _ _ _ _
  · nofun
  · exact roundWithAccuracy_ne_notANumber _ _ _ _

/-- Only zero times infinity is none. -/
theorem mul_ne_notANumber (h : u ≠ .notANumber) (s : UnpackedFloat.Sign) (m : ℕ) (e : ℤ) (pos : 0 < m) :
    UnpackedFloat.mul spec u (.finite s m e pos) ≠ .notANumber := by
  cases u with
  | notANumber => exact absurd rfl h
  | infinity | zero => nofun
  | finite => exact roundWithAccuracy_ne_notANumber _ _ _ _

/-- Only quotients of two zeros or of two infinities are none. -/
theorem div_ne_notANumber (h : u ≠ .notANumber) (s : UnpackedFloat.Sign) (m : ℕ) (e : ℤ) (pos : 0 < m) :
    UnpackedFloat.div spec u (.finite s m e pos) ≠ .notANumber := by
  cases u with
  | notANumber => exact absurd rfl h
  | infinity | zero => nofun
  | finite => exact roundWithAccuracy_ne_notANumber _ _ _ _

theorem neg_ne_notANumber (h : u ≠ .notANumber) : u.neg ≠ .notANumber := by
  cases u with
  | notANumber => exact absurd rfl h
  | _ => nofun

theorem ofScientific_ne_notANumber (m : ℕ) (e : ℤ) : UnpackedFloat.ofScientific spec m e ≠ .notANumber := by
  unfold UnpackedFloat.ofScientific
  split
  · nofun
  · split
    · nofun
    · split
      · nofun
      · split
        · exact roundWithAccuracy_ne_notANumber _ _ _ _
        · exact roundWithAccuracy_ne_notANumber _ _ _ _

end

/-! Doubles. -/

namespace Double

open Float.Model.UnpackedFloat (ExtendedMantissa)
open Single (Truncates)

/-- What is rounded to 53 bits is held, halved if it has become too long by one bit. -/
theorem roundWithAccuracy_of_full {s : UnpackedFloat.Sign} {m : ℕ} {e t : ℤ} {em : ExtendedMantissa}
    (first : UnpackedFloat.shiftToTargetExponent Format.binary64 m e .exact = (em, t))
    (full : 2 ^ 52 ≤ em.roundedMantissa) (short : em.roundedMantissa ≤ 2 ^ 53) (least : -1074 ≤ t) :
    ∃ r t' pos, UnpackedFloat.roundWithAccuracy Format.binary64 s m e .exact = .finite s r t' pos ∧
      2 ^ 52 ≤ r ∧ r < 2 ^ 53 ∧ t ≤ t' ∧ (r : ℚ) * 2 ^ t' = em.roundedMantissa * 2 ^ t := by
  rw [UnpackedFloat.roundWithAccuracy, first]
  dsimp only
  generalize em.roundedMantissa = r at full short
  rcases short.lt_or_eq with short | rfl
  · have log := log2_of_full full short
    have stay : (Format.binary64.targetExponent (Float.Model.totalExponent r t) - t).toNat = 0 := by
      rw [targetExponent_eq]
      omega
    rw [Single.shiftToTargetExponent_eq stay, Nat.cast_zero, add_zero]
    exact ⟨r, t, by omega, dif_neg (show r ≠ 0 by omega), full, short, le_rfl, rfl⟩
  · have carry : (Format.binary64.targetExponent (Float.Model.totalExponent (2 ^ 53) t) - t).toNat = 1 := by
      rw [targetExponent_eq, Nat.log2_two_pow]
      omega
    have double : ((2 ^ 52 : ℕ) : ℚ) * 2 ^ (t + 1) = (2 ^ 53 : ℕ) * 2 ^ t := by
      rw [zpow_add_one₀ two_ne_zero]
      push_cast
      ring
    rw [Single.shiftToTargetExponent_eq carry]
    exact ⟨2 ^ 52, t + 1, by decide, rfl, le_rfl, by decide, by omega, double⟩

/-- A mantissa of more than 53 bits is cut to 53 of them, and is not moved by more than the last of these. -/
theorem roundWithAccuracy_long (s : UnpackedFloat.Sign) {m n : ℕ} {e : ℤ} (long : m.log2 = 52 + n)
    (least : -1074 ≤ e + n) :
    ∃ r t pos, UnpackedFloat.roundWithAccuracy Format.binary64 s m e .exact = .finite s r t pos ∧
      2 ^ 52 ≤ r ∧ r < 2 ^ 53 ∧ e + n ≤ t ∧ (r : ℚ) * 2 ^ t ≤ m * 2 ^ e + 2 ^ (e + n) := by
  have first : UnpackedFloat.shiftToTargetExponent Format.binary64 m e .exact =
      (ExtendedMantissa.ofMantissaAndAccuracy m .exact >>> n, e + n) :=
    Single.shiftToTargetExponent_eq (by rw [targetExponent_eq]; omega)
  obtain ⟨lower, upper⟩ : (2 ^ 52 : ℚ) ≤ m / 2 ^ n ∧ (m / 2 ^ n : ℚ) < 2 ^ 53 := by
    have nonzero : m ≠ 0 := by
      rintro rfl
      rw [Nat.log2_zero] at long
      omega
    obtain ⟨lower, upper⟩ := (Nat.log2_eq_iff nonzero).1 long
    rw [Nat.pow_add] at lower
    rw [Nat.add_right_comm, Nat.pow_add] at upper
    rw [le_div_iff₀ (by positivity), div_lt_iff₀ (by positivity)]
    exact ⟨by exact_mod_cast lower, by exact_mod_cast upper⟩
  have cut := (Truncates.exact m).shiftRight n
  obtain ⟨r, t, pos, rounded, full, short, above, value⟩ := roundWithAccuracy_of_full (s := s) first
    (cut.le_rounded (by exact_mod_cast lower)) (cut.rounded_le (by exact_mod_cast upper.le)) least
  refine ⟨r, t, pos, rounded, full, short, above, ?_⟩
  rw [value, Single.mul_two_zpow_eq m e n, ← add_one_mul]
  refine mul_le_mul_of_nonneg_right ?_ (by positivity)
  linarith [(abs_le.1 cut.abs_rounded_sub_le).2]

/-- Neither zero nor infinite. -/
def IsScale (x : Float) : Prop := ∃ s m e pos, x.toModel.unpack = .finite s m e pos

/-- A long mantissa is packed as a finite number if the next multiple of its last place is not too large for one. -/
theorem isScale_pack (s : UnpackedFloat.Sign) {m n : ℕ} {e : ℤ} (long : m.log2 = 52 + n) (least : -1074 ≤ e + n)
    (small : (m : ℚ) * 2 ^ e + 2 ^ (e + n) < 2 ^ 1024) :
    IsScale (.ofModel (.pack (UnpackedFloat.roundWithAccuracy Format.binary64 s m e .exact))) := by
  obtain ⟨r, t, pos, rounded, lower, upper, above, near⟩ := roundWithAccuracy_long s long least
  have exponent : t ≤ 971 := by
    by_contra large
    have full : (2 : ℚ) ^ 52 ≤ r := by exact_mod_cast lower
    have high : (2 : ℚ) ^ 1024 ≤ r * 2 ^ t :=
      calc (2 : ℚ) ^ 1024 = 2 ^ 52 * 2 ^ (972 : ℤ) := by rw [zpow_ofNat, ← pow_add]
        _ ≤ (r : ℚ) * 2 ^ t :=
            mul_le_mul full (zpow_le_zpow_right₀ one_le_two (by omega)) (zpow_nonneg zero_le_two _) r.cast_nonneg
    exact absurd (high.trans near) (not_le.2 small)
  have biased : t + 1023 + 52 = (t + 1075).toNat := by omega
  refine ⟨s, r, t, pos, ?_⟩
  change (Float.Model.pack _).unpack = _
  rw [rounded]
  exact Single.unpack_pack_of_normal Format.binary64 lower upper biased (by omega)
    (show (t + 1075).toNat + 1 < 2 ^ 11 by omega)

/-- Not a NaN. -/
def IsNumber (x : Float) : Prop := x.toModel.unpack ≠ .notANumber

variable {x y : Float}

theorem isNumber_pack {u : UnpackedFloat} (h : u ≠ .notANumber) : IsNumber (.ofModel (.pack u)) :=
  Single.unpack_pack_ne_notANumber Format.binary64 h

theorem IsNumber.mul (hx : IsNumber x) (hy : IsScale y) : IsNumber (x * y) := by
  obtain ⟨s, m, e, pos, hy⟩ := hy
  refine isNumber_pack (u := UnpackedFloat.mul Format.binary64 x.toModel.unpack y.toModel.unpack) ?_
  rw [hy]
  exact mul_ne_notANumber hx s m e pos

theorem IsNumber.div (hx : IsNumber x) (hy : IsScale y) : IsNumber (x / y) := by
  obtain ⟨s, m, e, pos, hy⟩ := hy
  refine isNumber_pack (u := UnpackedFloat.div Format.binary64 x.toModel.unpack y.toModel.unpack) ?_
  rw [hy]
  exact div_ne_notANumber hx s m e pos

theorem IsNumber.neg (h : IsNumber x) : IsNumber (-x) := isNumber_pack (neg_ne_notANumber h)

/-- A natural number is converted by way of a word where it is short, else as a decimal. -/
theorem isNumber_ofNat (n : ℕ) : IsNumber (.ofNat n) := by
  by_cases short : n < 2 ^ 53
  · have product : Float.ofNat n = n.toUInt64.toFloat * Float.ofBits 0x3ff0000000000000 :=
      dif_pos ⟨short, by decide⟩
    have word : IsNumber n.toUInt64.toFloat := isNumber_pack (normalize_ne_notANumber n.toUInt64.toNat 0 .positive)
    rw [product]
    exact word.mul ⟨_, _, _, by decide, rfl⟩
  · have decimal : Float.ofNat n = .ofModel (.ofScientific n 0) := dif_neg fun h => short h.1
    rw [decimal]
    exact isNumber_pack (ofScientific_ne_notANumber n 0)

end Double

namespace Decimal

open Double (IsNumber IsScale)

/-- A great power of ten is rounded from a long mantissa. -/
theorem tenTo_eq {n : ℕ} (great : 22 < n) (small : n ≤ maxPower) : tenTo n =
    .ofModel (.pack (UnpackedFloat.roundWithAccuracy Format.binary64 .positive (2 ^ 53 * 10 ^ n) (-53) .exact)) := by
  have decimal : tenTo n = .ofModel (.pack (UnpackedFloat.ofScientific Format.binary64 1 n)) :=
    dif_neg fun h => absurd h.2 (not_le.2 great)
  have early : ¬(n : ℤ) > 2 ^ Format.binary64.exponentBits := by
    change ¬(n : ℤ) > 2 ^ 11
    rw [maxPower] at small
    omega
  have late : ¬(n : ℤ) < -(2 ^ Format.binary64.exponentBits + (1 : ℕ).log2) := by
    change ¬(n : ℤ) < -(2 ^ 11 + 0)
    omega
  rw [decimal, UnpackedFloat.ofScientific, dif_neg one_ne_zero, if_neg early, if_neg late, if_pos (by omega)]
  rfl

/-- The greatest of the powers of ten is not too large for a double. -/
theorem isScale_tenTo {n : ℕ} (small : n ≤ maxPower) : IsScale (tenTo n) := by
  by_cases great : 22 < n
  · have pos : 0 < 10 ^ n := Nat.pow_pos (by decide)
    have bounded : 10 ^ n ≤ 10 ^ maxPower := Nat.pow_le_pow_right (by decide) small
    have least : 10 ^ maxPower + 2 ^ 971 < 2 ^ 1024 := by decide +kernel
    have log : (10 ^ n).log2 < 1024 := (Nat.log2_lt pos.ne').2 (by omega)
    have long : (2 ^ 53 * 10 ^ n).log2 = 52 + ((10 ^ n).log2 + 1) := by
      rw [Nat.mul_comm, Double.log2_mul_two_pow pos]
      omega
    have power : ((2 ^ 53 * 10 ^ n : ℕ) : ℚ) * 2 ^ (-53 : ℤ) = (10 ^ n : ℕ) := by
      rw [Nat.cast_mul, mul_right_comm, Nat.cast_pow, zpow_neg, zpow_ofNat]
      norm_num
    have last : (2 : ℚ) ^ (-53 + ((10 ^ n).log2 + 1 : ℕ) : ℤ) ≤ 2 ^ 971 := by
      rw [← zpow_ofNat]
      exact zpow_le_zpow_right₀ one_le_two (by omega)
    have least : ((10 ^ maxPower + 2 ^ 971 : ℕ) : ℚ) < (2 ^ 1024 : ℕ) := Nat.cast_lt.2 least
    rw [Nat.cast_add, Nat.cast_pow 2, Nat.cast_pow 2, Nat.cast_ofNat] at least
    rw [tenTo_eq great small]
    refine Double.isScale_pack .positive long (by omega) ?_
    rw [power]
    exact (add_le_add (Nat.cast_le.2 bounded) last).trans_lt least
  · have each : ∀ n < 23, (tenTo n).toModel.unpack.isFinite = true ∧
        (tenTo n).toModel.unpack.compare (.zero .positive) ≠ some .eq := by
      decide +kernel
    have found := each n (by omega)
    unfold IsScale
    generalize (tenTo n).toModel.unpack = u at found
    cases u with
    | finite s m e pos => exact ⟨s, m, e, pos, rfl⟩
    | notANumber | infinity => cases found.1
    | zero => exact absurd rfl found.2

theorem isNumber_scale {x : Float} (h : IsNumber x) (e : ℤ) : IsNumber (scale x e) := by
  fun_induction scale x e with
  | case1 => exact h
  | case2 x e low zero ih => exact ih (h.div (isScale_tenTo le_rfl))
  | case3 x e above negative =>
      refine h.div (isScale_tenTo ?_)
      rw [maxPower] at above ⊢
      omega
  | case4 x e above nonneg small =>
      refine h.mul (isScale_tenTo ?_)
      omega
  | case5 => exact h
  | case6 => exact Double.isNumber_pack (u := .infinity .positive) nofun

theorem isNumber_toDouble (d : Decimal) : IsNumber d.toDouble := by
  have scaled := isNumber_scale (Double.isNumber_ofNat d.digits) d.exponent
  unfold toDouble
  dsimp only
  split
  · exact scaled.neg
  · exact scaled

theorem isNaN_toSingle (d : Decimal) : d.toSingle.isNaN = false := by
  have number := d.isNumber_toDouble
  unfold toSingle Single.ofDouble
  unfold IsNumber at number
  generalize d.toDouble.toModel.unpack = u at number
  cases u with
  | notANumber => exact absurd rfl number
  | finite => exact Single.isNaN_pack (roundWithAccuracy_ne_notANumber _ _ _ _)
  | infinity | zero => exact Single.isNaN_pack nofun

end Decimal

namespace Single

theorem unpack_ofNat_ne_notANumber (n : ℕ) : (Float32.ofNat n).toModel.unpack ≠ .notANumber := by
  by_cases short : n < 2 ^ 23
  · have product : Float32.ofNat n = n.toUInt64.toFloat32 * Float32.ofBits 0x3f800000 :=
      dif_pos ⟨short, by decide⟩
    have word : n.toUInt64.toFloat32.toModel.unpack ≠ .notANumber :=
      unpack_pack_ne_notANumber Format.binary32 (normalize_ne_notANumber n.toUInt64.toNat 0 .positive)
    rw [product]
    exact unpack_pack_ne_notANumber Format.binary32 (mul_ne_notANumber word _ _ _ (by decide))
  · have decimal : Float32.ofNat n = .ofModel (.ofScientific n 0) := dif_neg fun h => short h.1
    rw [decimal]
    exact unpack_pack_ne_notANumber Format.binary32 (ofScientific_ne_notANumber n 0)

theorem isNaN_ofInt (k : ℤ) : (ofInt k).isNaN = false := by
  rw [isNaN_eq_false_iff, ofInt, unpack_ofFloat32]
  cases k with
  | ofNat n => exact unpack_ofNat_ne_notANumber n
  | negSucc n =>
      exact unpack_pack_ne_notANumber Format.binary32 (neg_ne_notANumber (unpack_ofNat_ne_notANumber (n + 1)))

/-- No value in a file is read as a NaN. -/
theorem isNaN_of_decode {j : Json.Input} {x : Single} (h : decode j = .ok x) : x.isNaN = false := by
  cases j with
  | array | object => cases h
  | leaf a =>
      cases a with
      | tooGreat | unpaired | broken => cases h
      | value l =>
          cases l with
          | null | bool | string => cases h
          | int n =>
              obtain rfl := Except.ok.inj h
              exact isNaN_ofInt n
          | number d =>
              obtain rfl := Except.ok.inj h
              exact d.isNaN_toSingle

end Single

end Danmaku
