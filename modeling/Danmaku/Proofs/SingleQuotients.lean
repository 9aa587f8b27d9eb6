import Danmaku.Proofs.SingleArithmetic

/-! Quotients and ranges of singles. A quotient is rounded like any other result, from as many bits as a mantissa has and
what the division leaves. Rounding keeps the order, so a part of an extent over the whole is in `[0, 1]`, as long as the
whole is finite. -/

namespace Danmaku.Single

open Float.Model (UnpackedFloat Format)
open Float.Model.UnpackedFloat (ExtendedMantissa)

/-! Division. -/

/-- What a division leaves tells what was cut off of the quotient. -/
theorem truncates_div {n d : ℕ} (pos : 0 < d) :
    Truncates (.ofMantissaAndAccuracy (n / d) (UnpackedFloat.accuracyOfFraction (n % d) d)) (n / d : ℚ) := by
  have split : (n : ℚ) / d = (n / d : ℕ) + (n % d : ℕ) / d := by
    have : (n : ℚ) = d * (n / d : ℕ) + (n % d : ℕ) := by exact_mod_cast (Nat.div_add_mod n d).symm
    field_simp
    linarith
  have below : n % d < d := Nat.mod_lt n pos
  have pos : (0 : ℚ) < d := by exact_mod_cast pos
  rw [split]
  generalize n / d = q
  generalize n % d = r at below
  unfold UnpackedFloat.accuracyOfFraction
  by_cases zero : r = 0
  · rw [if_pos zero, zero]
    simp [Truncates, ExtendedMantissa.ofMantissaAndAccuracy]
  · rw [if_neg zero]
    have some : (0 : ℚ) < r / d := div_pos (by exact_mod_cast Nat.pos_of_ne_zero zero) pos
    have part : (r : ℚ) / d < 1 := by
      rw [div_lt_one pos]
      exact_mod_cast below
    rcases lt_trichotomy (2 * r) d with less | half | more
    · have : (r : ℚ) / d < 1 / 2 := by
        rw [div_lt_div_iff₀ pos two_pos, one_mul, mul_comm]
        exact_mod_cast less
      rw [Nat.compare_eq_lt.2 less]
      exact ⟨by simpa [ExtendedMantissa.ofMantissaAndAccuracy] using some, by
        simp only [ExtendedMantissa.ofMantissaAndAccuracy]; linarith⟩
    · have : (r : ℚ) / d = 1 / 2 := by
        rw [div_eq_div_iff pos.ne' two_ne_zero, one_mul, mul_comm]
        exact_mod_cast half
      rw [Nat.compare_eq_eq.2 half]
      simp [Truncates, ExtendedMantissa.ofMantissaAndAccuracy, this]
    · have : (1 : ℚ) / 2 < r / d := by
        rw [div_lt_div_iff₀ two_pos pos, one_mul, mul_comm]
        exact_mod_cast more
      rw [Nat.compare_eq_gt.2 more]
      exact ⟨by simp only [ExtendedMantissa.ofMantissaAndAccuracy]; linarith, by
        simp only [ExtendedMantissa.ofMantissaAndAccuracy]; linarith⟩

/-- The division takes as many bits of the quotient as its place has. -/
theorem fine_divCore {m n : ℕ} {e f : ℤ} (hm : 0 < m) (hn : 0 < n) {t : ℤ} (exponent : t ≤ e - f)
    (place : t ≤ Format.binary32.targetExponent (Float.Model.totalExponent m e - Float.Model.totalExponent n f)) :
    t ≤ Format.binary32.targetExponent (Float.Model.totalExponent (m <<< (e - f - t).toNat / n) t) := by
  obtain ⟨k, hk⟩ : ∃ k : ℕ, e - f - t = k := ⟨(e - f - t).toNat, by omega⟩
  have place : t ≤ max ((m.log2 + 1 + e) - (n.log2 + 1 + f) - 24) (-149) := place
  rw [targetExponent_eq, hk, Int.toNat_natCast]
  by_cases least : t ≤ -149
  · omega
  · have bits : 24 + n.log2 ≤ m.log2 + k := by omega
    have long : 2 ^ 23 ≤ m <<< k / n := by
      rw [Nat.le_div_iff_mul_le hn, Nat.shiftLeft_eq]
      calc 2 ^ 23 * n ≤ 2 ^ 23 * 2 ^ (n.log2 + 1) := Nat.mul_le_mul_left _ Nat.lt_log2_self.le
        _ = 2 ^ (24 + n.log2) := by rw [← Nat.pow_add]; congr 1; omega
        _ ≤ 2 ^ (m.log2 + k) := Nat.pow_le_pow_right two_pos bits
        _ ≤ m * 2 ^ k := by
            rw [Nat.pow_add]
            exact Nat.mul_le_mul_right _ (Nat.log2_self_le hm.ne')
    have := (Nat.le_log2 (by omega)).2 long
    omega

theorem apply_div (s r : UnpackedFloat.Sign) : (((s / r).apply 1 : ℤ) : ℚ) = s.apply 1 / r.apply 1 := by
  have some : (r.apply 1 : ℚ) ≠ 0 := by cases r <;> simp [UnpackedFloat.Sign.apply]
  have product : (s / r).apply 1 * r.apply 1 = s.apply 1 := by cases s <;> cases r <;> rfl
  rw [eq_div_iff some]
  exact_mod_cast product

variable {u v w : UnpackedFloat}

theorem rounds_div (nu : HasValue u) (nv : HasValue v) (some : rational v ≠ 0) :
    Rounds (rational u / rational v) (UnpackedFloat.div Format.binary32 u v) := by
  cases v with
  | infinity | notANumber => exact nv.elim
  | zero => exact absurd rfl some
  | finite r n f hn =>
      cases u with
      | infinity | notANumber => exact nu.elim
      | zero s =>
          rw [rational_zero, zero_div]
          exact rounds_zero _
      | finite s m e hm =>
          let t := min (e - f) (Format.binary32.targetExponent
            (Float.Model.totalExponent m e - Float.Model.totalExponent n f))
          have rounds := rounds_of_truncates (s / r) (truncates_div (n := m <<< (e - f - t).toNat) hn)
            (fine_divCore hm hn (min_le_left _ _) (min_le_right _ _) : t ≤ _)
          have value : rational (.finite s m e hm) / rational (.finite r n f hn) =
              (s / r).apply 1 * (((m <<< (e - f - t).toNat : ℕ) : ℚ) / n * 2 ^ t) := by
            have split : (2 : ℚ) ^ (e - f) = 2 ^ (e - f - t).toNat * 2 ^ t := by
              rw [← zpow_natCast, ← zpow_add₀ two_ne_zero,
                Int.toNat_of_nonneg (sub_nonneg.2 (min_le_left _ _)), sub_add_cancel]
            have base : (m : ℚ) * 2 ^ e / (n * 2 ^ f) = m / n * 2 ^ (e - f) := by
              rw [zpow_sub₀ two_ne_zero, mul_div_mul_comm]
            rw [rational, rational, cast_apply, cast_apply r, mul_assoc, mul_assoc, mul_div_mul_comm, apply_div, base,
              split, Nat.shiftLeft_eq]
            push_cast
            ring
          rw [value]
          exact rounds

/-! Rounding keeps the order. -/

/-- A greater number is not rounded to less. -/
theorem Rounds.mono {x y : ℚ} (hu : Rounds x u) (hv : Rounds y v) (lt : x < y) : rational u ≤ rational v := by
  by_contra less
  rw [not_le] at less
  -- Were it so, then the middle between the two would lie below the lesser number and above the greater one.
  have near := sq_le_sq.2 (hu.nearest _ (onGrid_rational hv.canonical))
  have near' := sq_le_sq.2 (hv.nearest _ (onGrid_rational hu.canonical))
  have below : rational u + rational v ≤ 2 * x := by nlinarith only [near, less]
  have above : 2 * y ≤ rational u + rational v := by nlinarith only [near', less]
  linarith

/-! Differences. -/

theorem rational_sub_le (hu : Canonical u) (hv : Canonical v) (hw : Canonical w) (nu : HasValue u) (nv : HasValue v)
    (nw : HasValue w) (le : rational u ≤ rational v) :
    rational (UnpackedFloat.sub Format.binary32 u w) ≤ rational (UnpackedFloat.sub Format.binary32 v w) := by
  have first := rounds_sub hu hw nu nw
  have second := rounds_sub hv hw nv nw
  rcases le.lt_or_eq with lt | same
  · exact first.mono second (sub_lt_sub_right lt _)
  · -- Equal numbers are the same, but for the zeros, and from these the difference is exact.
    by_cases zero : rational u = 0
    · have grid := onGrid_neg (onGrid_rational hw)
      rw [zero, zero_sub] at first
      rw [← same, zero, zero_sub] at second
      rw [first.exact grid, second.exact grid]
    · rw [eq_of_rational_eq hu hv nu nv same zero]

variable {x y z : Single}

theorem isFinite_pack_iff (canonical : Canonical u) (hasValue : HasValue u) : (pack u).isFinite = true ↔ Fits u := by
  refine ⟨fun finite => ?_, fun fits => ?_⟩
  · by_contra large
    cases u with
    | infinity | notANumber => exact hasValue
    | zero => exact large trivial
    | finite s m e pos =>
        rw [isFinite_iff, pack_of_ne_notANumber (u := .finite s m e pos) nofun, unpack_eq_unpack_bits,
          pack_of_large (not_le.1 large)] at finite
        cases s <;> exact finite
  · rw [isFinite_iff, unpack_pack canonical fits]
    exact hasValue

theorem value_pack (canonical : Canonical u) (hasValue : HasValue u) (finite : (pack u).isFinite = true) :
    (pack u).value = rational u := by
  rw [value, unpack_pack canonical ((isFinite_pack_iff canonical hasValue).1 finite)]

/-- What is rounded from a number that is no greater than a single is finite and no greater either. -/
theorem Rounds.within {v : ℚ} (h : Rounds v u) (bounded : |v| ≤ |x.value|) :
    (Single.pack u).isFinite = true ∧ (Single.pack u).value = rational u ∧ |rational u| ≤ |x.value| := by
  have grid : OnGrid |x.value| := by
    rcases abs_choice x.value with same | negated
    · rw [same]
      exact onGrid_value x
    · rw [negated]
      exact onGrid_neg (onGrid_value x)
  obtain ⟨lower, upper⟩ := abs_le.1 bounded
  have le : |rational u| ≤ |x.value| := abs_le.2 ⟨h.ge (onGrid_neg grid) lower, h.le grid upper⟩
  have fits : Fits u := (fits_iff h.canonical).2 (le.trans_lt ((fits_iff (canonical_unpack x)).1 (fits_unpack x)))
  have finite : (Single.pack u).isFinite = true := (isFinite_pack_iff h.canonical h.hasValue).2 fits
  exact ⟨finite, value_pack h.canonical h.hasValue finite, le⟩

theorem isFinite_pack_infinity (s : UnpackedFloat.Sign) : (pack (.infinity s)).isFinite ≠ true := by
  cases s <;> decide

/-- A NaN is passed on from either side. -/
theorem isNaN_combine {op : Float32 → Float32 → Float32} (h : x.isNaN = true ∨ y.isNaN = true) :
    (combine op x y).isNaN = true := by
  unfold combine
  split
  · exact isNaN_quiet ‹_›
  · rename_i number
    have nan := h.resolve_left number
    rw [if_pos nan]
    exact isNaN_quiet nan

/-- A difference is finite only of finite numbers. -/
theorem isFinite_of_sub (h : (x - y).isFinite = true) : x.isFinite = true ∧ y.isFinite = true := by
  obtain ⟨hx, hy⟩ : x.isNaN = false ∧ y.isNaN = false := by
    have number := isNaN_of_isFinite h
    constructor <;> by_contra nan <;> rw [Bool.not_eq_false] at nan
    · exact Bool.eq_false_iff.1 number (isNaN_combine (.inl nan))
    · exact Bool.eq_false_iff.1 number (isNaN_combine (.inr nan))
  rw [sub_eq_pack hx hy] at h
  rw [isNaN_eq_false_iff] at hx hy
  rw [isFinite_iff, isFinite_iff]
  generalize x.unpack = u at h hx
  generalize y.unpack = v at h hy
  cases u with
  | notANumber => exact absurd rfl hx
  | infinity s =>
      cases v with
      | notANumber => exact absurd rfl hy
      | infinity r => cases s <;> cases r <;> exact absurd h (by decide)
      | zero | finite => exact absurd h (isFinite_pack_infinity s)
  | zero | finite =>
      cases v with
      | notANumber => exact absurd rfl hy
      | infinity r => exact absurd h (isFinite_pack_infinity (-r))
      | zero | finite => exact ⟨trivial, trivial⟩

theorem eq_neg_infinity (h : x ≤ -infinity) : x = -infinity := by
  have number := (isNaN_of_le h).1
  have bottom := le_bot_iff.1 ((le_iff_extended_le number rfl).1 h)
  rw [← pack_unpack number]
  rw [isNaN_eq_false_iff] at number
  generalize x.unpack = u at number bottom
  cases u with
  | notANumber => exact absurd rfl number
  | zero | finite => cases bottom
  | infinity s =>
      cases s with
      | positive => cases bottom
      | negative => decide

/-- Where an extent is finite, so are its parts from the lower end on, and they are not greater. -/
theorem part_of_extent (finite : (z - x).isFinite = true) (lower : x ≤ y) (upper : y ≤ z) :
    (y - x).isFinite = true ∧ 0 ≤ (y - x).value ∧ (y - x).value ≤ (z - x).value := by
  obtain ⟨hz, hx⟩ := isFinite_of_sub finite
  have hy := isFinite_of_between hx hz lower upper
  have whole := rounds_sub (canonical_unpack z) (canonical_unpack x) (isFinite_iff.1 hz) (isFinite_iff.1 hx)
  have part := rounds_sub (canonical_unpack y) (canonical_unpack x) (isFinite_iff.1 hy) (isFinite_iff.1 hx)
  have nonneg : 0 ≤ rational (UnpackedFloat.sub Format.binary32 y.unpack x.unpack) :=
    part.ge (onGrid_value 0) (sub_nonneg.2 ((le_iff_value_le hx hy).1 lower))
  have le := rational_sub_le (canonical_unpack y) (canonical_unpack z) (canonical_unpack x) (isFinite_iff.1 hy)
    (isFinite_iff.1 hz) (isFinite_iff.1 hx) ((le_iff_value_le hy hz).1 upper)
  rw [sub_eq_pack (isNaN_of_isFinite hz) (isNaN_of_isFinite hx)] at finite ⊢
  rw [sub_eq_pack (isNaN_of_isFinite hy) (isNaN_of_isFinite hx)]
  have fits := (isFinite_pack_iff whole.canonical whole.hasValue).1 finite
  have finite' : (pack (UnpackedFloat.sub Format.binary32 y.unpack x.unpack)).isFinite = true := by
    rw [isFinite_pack_iff part.canonical part.hasValue, fits_iff part.canonical, abs_of_nonneg nonneg]
    rw [fits_iff whole.canonical, abs_of_nonneg (nonneg.trans le)] at fits
    exact le.trans_lt fits
  rw [value_pack part.canonical part.hasValue finite', value_pack whole.canonical whole.hasValue finite]
  exact ⟨finite', nonneg, le⟩

/-- A part over the whole is in `[0, 1]`. -/
theorem div_between (hx : x.isFinite = true) (hy : y.isFinite = true) (pos : 0 < y.value) (nonneg : 0 ≤ x.value)
    (le : x.value ≤ y.value) : 0 ≤ x / y ∧ x / y ≤ 1 := by
  have rounds := rounds_div (isFinite_iff.1 hx) (isFinite_iff.1 hy) pos.ne'
  have ratio : 0 ≤ x.value / y.value ∧ x.value / y.value ≤ value 1 :=
    ⟨div_nonneg nonneg pos.le, ((div_le_one pos).2 le).trans_eq value_one.symm⟩
  obtain ⟨finite, held, -⟩ := rounds.within (x := 1) (by
    change |x.value / y.value| ≤ |value 1|
    rw [abs_of_nonneg ratio.1]
    exact ratio.2.trans (le_abs_self _))
  rw [div_eq_pack (isNaN_of_isFinite hx) (isNaN_of_isFinite hy), le_iff_value_le rfl finite,
    le_iff_value_le finite rfl, held]
  exact ⟨rounds.ge (onGrid_value 0) ratio.1, rounds.le (onGrid_value 1) ratio.2⟩

/-! Remainders. -/

/-- A remainder is no greater than the divisor. -/
theorem rem_within (hx : x.isFinite = true) (hy : y.isFinite = true) (pos : 0 < y) :
    (x.rem y).isFinite = true ∧ |(x.rem y).value| ≤ y.value := by
  obtain ⟨n, f, hn, divisor⟩ : ∃ n f hn, y.unpack = .finite .positive n f hn := by
    rcases unpack_of_pos pos with infinite | found
    · rw [isFinite_iff, infinite] at hy
      exact hy.elim
    · exact found
  have value_y : y.value = n * 2 ^ f := by
    rw [value, divisor]
    rfl
  have nonneg : 0 ≤ y.value := by
    rw [value_y]
    positivity
  cases dividend : x.unpack with
  | infinity | notANumber =>
      rw [isFinite_iff, dividend] at hx
      exact hx.elim
  | zero s =>
      have same : x.rem y = x := by
        unfold rem
        rw [dividend, divisor]
      have zero : x.value = 0 := by
        rw [value, dividend]
        rfl
      rw [same, zero, abs_zero]
      exact ⟨hx, nonneg⟩
  | finite s m e hm =>
      let g := min e f
      have packed : x.rem y = pack (.round Format.binary32 s ((m <<< (e - g).toNat) % (n <<< (f - g).toNat)) g) := by
        unfold rem
        rw [dividend, divisor]
      have rounds := rounds_round s ((m <<< (e - g).toNat) % (n <<< (f - g).toNat)) g
      have less : (((m <<< (e - g).toNat) % (n <<< (f - g).toNat) : ℕ) : ℚ) * 2 ^ g ≤ y.value := by
        have whole : ((n <<< (f - g).toNat : ℕ) : ℚ) * 2 ^ g = n * 2 ^ f := aligned .positive n (min_le_right e f)
        rw [value_y, ← whole]
        refine mul_le_mul_of_nonneg_right (Nat.cast_le.2 (Nat.mod_lt _ ?_).le) (by positivity)
        rw [Nat.shiftLeft_eq]
        exact Nat.mul_pos hn (Nat.two_pow_pos _)
      obtain ⟨finite, held, within⟩ := rounds.within (x := y) (by
        rw [cast_apply, mul_assoc, abs_cast_apply, abs_of_nonneg (by positivity), abs_of_nonneg nonneg]
        exact less)
      rw [packed, held]
      exact ⟨finite, within.trans_eq (abs_of_nonneg nonneg)⟩

/-- A number has a modulo within the divisor, the divisor included. -/
theorem modulo_between (hx : x.isFinite = true) (hy : y.isFinite = true) (pos : 0 < y) (unsigned : y.abs = y) :
    0 ≤ x.modulo y ∧ x.modulo y ≤ y := by
  obtain ⟨hr, within⟩ := rem_within hx hy pos
  obtain ⟨lower, upper⟩ := abs_le.1 within
  unfold modulo
  dsimp only
  rw [unsigned]
  split
  · rename_i negative
    rw [lt_iff_not_le (isNaN_of_isFinite hr) rfl, le_iff_value_le rfl hr, value_zero, not_le] at negative
    have rounds := rounds_add (canonical_unpack (x.rem y)) (canonical_unpack y) (isFinite_iff.1 hr) (isFinite_iff.1 hy)
    have sum : 0 ≤ (x.rem y).value + y.value ∧ (x.rem y).value + y.value ≤ y.value := ⟨by linarith, by linarith⟩
    obtain ⟨finite, held, -⟩ := rounds.within (x := y) (by
      change |(x.rem y).value + y.value| ≤ |y.value|
      rw [abs_of_nonneg sum.1]
      exact sum.2.trans (le_abs_self _))
    rw [add_eq_pack (isNaN_of_isFinite hr) (isNaN_of_isFinite hy), le_iff_value_le rfl finite,
      le_iff_value_le finite hy, held]
    exact ⟨rounds.ge (onGrid_value 0) sum.1, rounds.le (onGrid_value y) sum.2⟩
  · rename_i nonneg
    exact ⟨le_of_not_lt (isNaN_of_isFinite hr) rfl nonneg, (le_iff_value_le hr hy).2 upper⟩

/-- There is no remainder of what is not finite. -/
theorem isNaN_modulo (hx : x.isFinite = false) (hy : y.isFinite = true) : (x.modulo y).isNaN = true := by
  have nan : (x.rem y).isNaN = true := by
    unfold rem
    rw [Bool.eq_false_iff, ne_eq, isFinite_iff] at hx
    rw [isFinite_iff] at hy
    cases dividend : x.unpack with
    | zero | finite =>
        rw [dividend] at hx
        exact absurd trivial hx
    | notANumber =>
        dsimp only
        refine isNaN_quiet ?_
        rw [← Bool.not_eq_false, isNaN_eq_false_iff, not_not]
        exact dividend
    | infinity s =>
        generalize y.unpack = v at hy
        cases v with
        | infinity | notANumber => exact hy.elim
        | zero | finite =>
            change invalid.isNaN = true
            decide
  unfold modulo
  dsimp only
  split
  · rename_i negative
    have number := (isNaN_of_le (le_of_lt negative)).1
    rw [nan] at number
    cases number
  · exact nan

end Danmaku.Single
