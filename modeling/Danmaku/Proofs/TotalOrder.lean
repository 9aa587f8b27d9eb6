import Danmaku.Proofs.SingleValues

/-! The total order of singles. It goes by the bits, and these count the magnitudes of one sign up to the infinity and
on through the NaNs. So among numbers it agrees with the order of their values, and a NaN comes before all numbers or
after all of them. -/

namespace Danmaku.Single

open Float.Model (UnpackedFloat Format)

variable {x y z : Single}

/-- Magnitudes with a sign, the negative ones in reverse and before the others. -/
def signed (s : UnpackedFloat.Sign) (magnitude : ℤ) : ℤ :=
  match s with
  | .positive => magnitude
  | .negative => -1 - magnitude

/-- The place of a number in the total order. -/
def key : UnpackedFloat → ℤ
  | .zero s => signed s 0
  | .finite s m e _ => signed s ((e + 149) * 2 ^ 23 + m)
  | .infinity s => signed s 0x7f800000
  | .notANumber => 0

theorem toNat_toBits_lt (x : Single) : x.toBits.toNat < 2 ^ 32 := x.toBits.toBitVec.isLt

theorem ofBitVec_unpackSign (x : Single) :
    UnpackedFloat.Sign.ofBitVec (@UnpackedFloat.unpackSign Format.binary32 x.toBits.toBitVec) =
      if x.toBits.toNat < 0x80000000 then .positive else .negative := by
  have bounded := x.toNat_toBits_lt
  have bit : (@UnpackedFloat.unpackSign Format.binary32 x.toBits.toBitVec).toNat = x.toBits.toNat / 0x80000000 := by
    rw [UnpackedFloat.unpackSign, BitVec.toNat_cast, BitVec.extractLsb_toNat]
    change x.toBits.toNat >>> 31 % 2 ^ 1 = _
    rw [Nat.shiftRight_eq_div_pow]
    omega
  have zero : @UnpackedFloat.unpackSign Format.binary32 x.toBits.toBitVec = 0#1 ↔ x.toBits.toNat < 0x80000000 := by
    rw [BitVec.toNat_eq, bit]
    change _ = 0 ↔ _
    omega
  simp only [UnpackedFloat.Sign.ofBitVec, zero]

theorem orderKey_eq_signed (x : Single) :
    x.orderKey = signed (if x.toBits.toNat < 0x80000000 then .positive else .negative)
      (x.toBits.toNat % 0x80000000 : ℕ) := by
  have bounded := x.toNat_toBits_lt
  have magnitude : (x.toBits &&& 0x7fffffff).toNat = x.toBits.toNat % 0x80000000 := toNat_abs x
  have high : x.toBits &&& 0x80000000 = 0 ↔ x.toBits.toNat < 0x80000000 := by
    rw [← UInt32.toNat_inj, UInt32.toNat_and]
    change x.toBits.toNat &&& 2 ^ 31 = 0 ↔ _
    rw [Nat.and_two_pow, Nat.testBit_eq_decide_div_mod_eq]
    by_cases h : x.toBits.toNat < 0x80000000
    · simp [h]
      omega
    · simp [h]
      omega
  unfold orderKey
  simp only [high, magnitude]
  split
  · rw [signed]
    omega
  · rfl

/-- The total order goes by the place of a number. -/
theorem orderKey_eq_key (h : x.isNaN = false) : x.orderKey = key x.unpack := by
  have exponent := toNat_unpackExponent x
  have mantissa := toNat_unpackMantissa x
  have unpacks := unpacks_unpack x.toBits.toBitVec
  have number := unpack_ne_notANumber h
  rw [unpack_eq_unpack_bits] at number ⊢
  rw [orderKey_eq_signed, ← ofBitVec_unpackSign]
  generalize UnpackedFloat.unpack Format.binary32 x.toBits.toBitVec = u at unpacks number ⊢
  cases unpacks with
  | infinity full zero =>
      rw [full] at exponent
      rw [zero] at mantissa
      change 255 = _ at exponent
      change 0 = _ at mantissa
      refine congrArg (signed _) ?_
      omega
  | nan => exact absurd rfl number
  | zero least zero =>
      rw [least] at exponent
      rw [zero] at mantissa
      change 0 = _ at exponent
      change 0 = _ at mantissa
      refine congrArg (signed _) ?_
      omega
  | subnormal least pos =>
      rw [least] at exponent
      change 0 = _ at exponent
      refine congrArg (signed _) ?_
      rw [mantissa]
      omega
  | normal finite normal =>
      refine congrArg (signed _) ?_
      rw [mantissa, exponent]
      omega

/-- A NaN is beyond the infinity of its sign. -/
theorem isNaN_eq_false_iff_orderKey : x.isNaN = false ↔ -0x7f800001 ≤ x.orderKey ∧ x.orderKey ≤ 0x7f800000 := by
  rw [isNaN, decide_eq_false_iff_not, UInt32.lt_iff_toNat_lt, toNat_abs, Nat.not_lt, orderKey_eq_signed]
  change x.toBits.toNat % 0x80000000 ≤ 0x7f800000 ↔ _
  split
  · rw [signed]
    omega
  · rw [signed]
    omega

/-- What is between numbers in the total order is a number. -/
theorem isNaN_of_between (hx : x.isNaN = false) (hz : z.isNaN = false) (below : x.totalLe y = true)
    (above : y.totalLe z = true) : y.isNaN = false := by
  rw [isNaN_eq_false_iff_orderKey] at hx hz ⊢
  have below : x.orderKey ≤ y.orderKey := of_decide_eq_true below
  have above : y.orderKey ≤ z.orderKey := of_decide_eq_true above
  omega

section

variable {m n : ℕ} {e f : ℤ}

/-- Places compare as magnitudes do, by their exponents first. -/
theorem isLE_of_place_le (hm : m < 2 ^ 24 ∧ -149 ≤ e ∧ (2 ^ 23 ≤ m ∨ e = -149))
    (hn : n < 2 ^ 24 ∧ -149 ≤ f ∧ (2 ^ 23 ≤ n ∨ f = -149))
    (h : (e + 149) * 2 ^ 23 + m ≤ (f + 149) * 2 ^ 23 + n) : ((compare e f).then (compare m n)).isLE = true := by
  rcases lt_trichotomy e f with lt | rfl | gt
  · rw [Int.compare_eq_lt.2 lt]
    rfl
  · rw [Int.compare_eq_eq.2 rfl, Ordering.eq_then, Nat.isLE_compare]
    omega
  · omega

end

/-- Finite magnitudes come after zero and before the infinity. -/
theorem place_bounds {m : ℕ} {e : ℤ} {s : UnpackedFloat.Sign} {pos : 0 < m} (canonical : Canonical (.finite s m e pos))
    (fits : Fits (.finite s m e pos)) : 0 < (e + 149) * 2 ^ 23 + m ∧ (e + 149) * 2 ^ 23 + m < 0x7f800000 := by
  obtain ⟨short, least, -⟩ := canonical
  have most : e ≤ 104 := fits
  omega

/-- Numbers compare as their places. -/
theorem isLE_of_key_le {u v : UnpackedFloat} (hu : Canonical u) (hv : Canonical v) (fu : Fits u) (fv : Fits v)
    (nu : u ≠ .notANumber) (nv : v ≠ .notANumber) (h : key u ≤ key v) : (u.compare v).any (·.isLE) = true := by
  cases u with
  | notANumber => exact absurd rfl nu
  | infinity s =>
      cases s with
      | negative =>
          cases v with
          | notANumber => exact absurd rfl nv
          | infinity r => cases r <;> rfl
          | _ => rfl
      | positive =>
          cases v with
          | notANumber => exact absurd rfl nv
          | infinity r =>
              cases r with
              | positive => rfl
              | negative => exact absurd h (by decide)
          | zero r => exact absurd h (by cases r <;> decide)
          | finite r n f hn =>
              have bounds := place_bounds hv fv
              cases r <;> simp only [key, signed] at h <;> omega
  | zero s =>
      cases v with
      | notANumber => exact absurd rfl nv
      | infinity r =>
          cases r with
          | positive => rfl
          | negative => exact absurd h (by cases s <;> decide)
      | zero r => rfl
      | finite r n f hn =>
          have bounds := place_bounds hv fv
          cases r with
          | positive => rfl
          | negative => cases s <;> simp only [key, signed] at h <;> omega
  | finite s m e hm =>
      have boundsm := place_bounds hu fu
      cases v with
      | notANumber => exact absurd rfl nv
      | infinity r =>
          cases r with
          | positive => cases s <;> rfl
          | negative => cases s <;> simp only [key, signed] at h <;> omega
      | zero r =>
          cases s with
          | negative => rfl
          | positive => cases r <;> simp only [key, signed] at h <;> omega
      | finite r n f hn =>
          have boundsn := place_bounds hv fv
          cases s <;> cases r <;> simp only [key, signed] at h
          · change ((compare e f).then (compare m n)).swap.isLE = true
            rw [swap_magnitudes]
            exact isLE_of_place_le hv hu (by omega)
          · rfl
          · omega
          · exact isLE_of_place_le hu hv h

/-- Among numbers the total order agrees with the order of their values. -/
theorem le_of_totalLe (hx : x.isNaN = false) (hy : y.isNaN = false) (h : x.totalLe y = true) : x ≤ y := by
  have h : x.orderKey ≤ y.orderKey := of_decide_eq_true h
  rw [orderKey_eq_key hx, orderKey_eq_key hy] at h
  exact le_iff_isLE.2 (isLE_of_key_le (canonical_unpack x) (canonical_unpack y) (fits_unpack x) (fits_unpack y)
    (unpack_ne_notANumber hx) (unpack_ne_notANumber hy) h)

theorem totalLe_refl (x : Single) : x.totalLe x = true := by
  simpa using x.totalLe_total x

/-- Two numbers compare one way or the other. -/
theorem le_or_le (hx : x.isNaN = false) (hy : y.isNaN = false) : x ≤ y ∨ y ≤ x := by
  rw [le_iff_extended_le hx hy, le_iff_extended_le hy hx]
  exact le_total _ _

theorem le_refl (hx : x.isNaN = false) : x ≤ x := (le_or_le hx hx).elim id id

end Danmaku.Single
