import Danmaku.Proofs.Unpacking

/-! The rational numbers that singles stand for. Singles that are not NaNs compare as points of the rational line with
its two ends, so their order is transitive; the comparison looks at exponents first and then at mantissas, which is
right because mantissas are as long as they can be. -/

namespace Danmaku.Single

open Float.Model (UnpackedFloat Format)

/-- The number that an unpacked float stands for, `0` where it is none. -/
def rational : UnpackedFloat → ℚ
  | .finite s m e _ => s.apply m * 2 ^ e
  | _ => 0

def value (x : Single) : ℚ := rational x.unpack

/-- The place on the rational line with its two ends. -/
def extended : UnpackedFloat → WithBot (WithTop ℚ)
  | .infinity .negative => ⊥
  | .infinity .positive => (⊤ : WithTop ℚ)
  | u => (rational u : WithTop ℚ)

/-- Zero, or finite. -/
def HasValue : UnpackedFloat → Prop
  | .finite .. | .zero _ => True
  | _ => False

/-! Magnitudes. -/

section

variable {m n : ℕ} {e f : ℤ}

theorem magnitude_lt (hm : m < 2 ^ 24) (hn : 2 ^ 23 ≤ n) (h : e < f) : (m : ℚ) * 2 ^ e < n * 2 ^ f := by
  have short : (m : ℚ) < 2 ^ 24 := by exact_mod_cast hm
  have long : (2 ^ 23 : ℚ) ≤ n := by exact_mod_cast hn
  calc (m : ℚ) * 2 ^ e < 2 ^ 24 * 2 ^ e := mul_lt_mul_of_pos_right short (by positivity)
    _ = 2 ^ 23 * 2 ^ (e + 1) := by rw [zpow_add_one₀ two_ne_zero]; ring
    _ ≤ n * 2 ^ (e + 1) := mul_le_mul_of_nonneg_right long (by positivity)
    _ ≤ n * 2 ^ f := mul_le_mul_of_nonneg_left (zpow_le_zpow_right₀ one_le_two h) (by positivity)

/-- Magnitudes compare by their exponents first. -/
theorem isLE_magnitudes (hm : m < 2 ^ 24 ∧ -149 ≤ e ∧ (2 ^ 23 ≤ m ∨ e = -149))
    (hn : n < 2 ^ 24 ∧ -149 ≤ f ∧ (2 ^ 23 ≤ n ∨ f = -149)) :
    ((compare e f).then (compare m n)).isLE = true ↔ (m : ℚ) * 2 ^ e ≤ n * 2 ^ f := by
  rcases lt_trichotomy e f with h | rfl | h
  · have long : 2 ^ 23 ≤ n := hn.2.2.resolve_right (by omega)
    rw [Int.compare_eq_lt.2 h]
    exact iff_of_true rfl (magnitude_lt hm.1 long h).le
  · rw [Int.compare_eq_eq.2 rfl, Ordering.eq_then, Nat.isLE_compare, mul_le_mul_iff_left₀ (by positivity)]
    exact Nat.cast_le.symm
  · have long : 2 ^ 23 ≤ m := hm.2.2.resolve_right (by omega)
    rw [Int.compare_eq_gt.2 h]
    exact iff_of_false nofun (magnitude_lt hn.1 long h).not_ge

end

theorem swap_magnitudes (m n : ℕ) (e f : ℤ) :
    ((compare e f).then (compare m n)).swap = (compare f e).then (compare n m) := by
  rw [Ordering.swap_then, ← Std.OrientedOrd.eq_swap, ← Std.OrientedOrd.eq_swap]

theorem rational_pos {m : ℕ} {e : ℤ} (pos : 0 < m) : 0 < (m : ℚ) * 2 ^ e := by positivity

theorem extended_of_hasValue {u : UnpackedFloat} (h : HasValue u) : extended u = (rational u : WithTop ℚ) := by
  cases u with
  | finite | zero => rfl
  | infinity | notANumber => exact h.elim

theorem extended_le_iff {u v : UnpackedFloat} (hu : HasValue u) (hv : HasValue v) :
    extended u ≤ extended v ↔ rational u ≤ rational v := by
  rw [extended_of_hasValue hu, extended_of_hasValue hv, WithBot.coe_le_coe, WithTop.coe_le_coe]

theorem eq_of_magnitude_eq {m n : ℕ} {e f : ℤ} (hm : m < 2 ^ 24 ∧ -149 ≤ e ∧ (2 ^ 23 ≤ m ∨ e = -149))
    (hn : n < 2 ^ 24 ∧ -149 ≤ f ∧ (2 ^ 23 ≤ n ∨ f = -149)) (h : (m : ℚ) * 2 ^ e = n * 2 ^ f) : e = f ∧ m = n := by
  rcases lt_trichotomy e f with lt | rfl | gt
  · exact absurd h (magnitude_lt hm.1 (hn.2.2.resolve_right (by omega)) lt).ne
  · exact ⟨rfl, Nat.cast_injective (mul_right_cancel₀ (by positivity) h)⟩
  · exact absurd h (magnitude_lt hn.1 (hm.2.2.resolve_right (by omega)) gt).ne'

/-- A number other than zero has one canonical form. -/
theorem eq_of_rational_eq {u v : UnpackedFloat} (hu : Canonical u) (hv : Canonical v) (nu : HasValue u)
    (nv : HasValue v) (h : rational u = rational v) (ne : rational u ≠ 0) : u = v := by
  cases u with
  | infinity | notANumber => exact nu.elim
  | zero => exact absurd rfl ne
  | finite s m e hm =>
      cases v with
      | infinity | notANumber => exact nv.elim
      | zero => exact absurd h ne
      | finite r n f hn =>
          have posm := rational_pos (e := e) hm
          have posn := rational_pos (e := f) hn
          cases s <;> cases r <;> simp only [rational, UnpackedFloat.Sign.apply] at h <;> push_cast at h
          · obtain ⟨rfl, rfl⟩ := eq_of_magnitude_eq hu hv (by linarith)
            rfl
          · linarith
          · linarith
          · obtain ⟨rfl, rfl⟩ := eq_of_magnitude_eq hu hv h
            rfl

/-- Numbers compare as their places on the line. -/
theorem isLE_compare_iff {u v : UnpackedFloat} (hu : Canonical u) (hv : Canonical v) (nu : u ≠ .notANumber)
    (nv : v ≠ .notANumber) : (u.compare v).any (·.isLE) = true ↔ extended u ≤ extended v := by
  cases u with
  | notANumber => exact absurd rfl nu
  | infinity s =>
      cases s with
      | negative =>
          refine iff_of_true ?_ bot_le
          cases v with
          | notANumber => exact absurd rfl nv
          | infinity r => cases r <;> rfl
          | _ => rfl
      | positive =>
          cases v with
          | notANumber => exact absurd rfl nv
          | infinity r =>
              cases r with
              | negative => exact iff_of_false nofun (by simp [extended])
              | positive => exact iff_of_true rfl le_rfl
          | _ => exact iff_of_false nofun (by simp [extended])
  | zero s =>
      cases v with
      | notANumber => exact absurd rfl nv
      | infinity r => cases r <;> simp [UnpackedFloat.compare, extended]
      | zero r => exact iff_of_true rfl le_rfl
      | finite r n f hn =>
          have pos := rational_pos (e := f) hn
          rw [extended_le_iff (u := .zero s) (v := .finite r n f hn) trivial trivial]
          cases r with
          | negative => exact iff_of_false nofun (by simp [rational, UnpackedFloat.Sign.apply, pos])
          | positive => exact iff_of_true rfl (by simpa [rational, UnpackedFloat.Sign.apply] using pos.le)
  | finite s m e hm =>
      have posm := rational_pos (e := e) hm
      cases v with
      | notANumber => exact absurd rfl nv
      | infinity r => cases s <;> cases r <;> simp [UnpackedFloat.compare, extended]
      | zero r =>
          rw [extended_le_iff (u := .finite s m e hm) (v := .zero r) trivial trivial]
          cases s with
          | negative => exact iff_of_true rfl (by simpa [rational, UnpackedFloat.Sign.apply] using posm.le)
          | positive => exact iff_of_false nofun (by simp [rational, UnpackedFloat.Sign.apply, posm])
      | finite r n f hn =>
          have posn := rational_pos (e := f) hn
          rw [extended_le_iff (u := .finite s m e hm) (v := .finite r n f hn) trivial trivial]
          cases s <;> cases r
          · change ((compare e f).then (compare m n)).swap.isLE = true ↔ _
            rw [swap_magnitudes, isLE_magnitudes hv hu]
            simp [rational, UnpackedFloat.Sign.apply]
          · exact iff_of_true rfl (by simp only [rational, UnpackedFloat.Sign.apply]; push_cast; linarith)
          · exact iff_of_false nofun (by simp only [rational, UnpackedFloat.Sign.apply]; push_cast; linarith)
          · change ((compare e f).then (compare m n)).isLE = true ↔ _
            rw [isLE_magnitudes hu hv]
            simp [rational, UnpackedFloat.Sign.apply]

/-! Singles. -/

variable {x y z : Single}

theorem value_zero : (0 : Single).value = 0 := rfl

theorem value_one : (1 : Single).value = 1 := by
  change ((2 ^ 23 : ℤ) : ℚ) * 2 ^ (-23 : ℤ) = 1
  norm_num

theorem unpack_eq_notANumber (h : x.isNaN = true) : x.unpack = .notANumber := by
  rw [isNaN, decide_eq_true_eq, UInt32.lt_iff_toNat_lt, toNat_abs] at h
  change 0x7f800000 < x.toBits.toNat % 0x80000000 at h
  rw [unpack_eq_unpack_bits]
  refine unpack_of_nan (BitVec.eq_of_toNat_eq ?_) fun zero => ?_
  · rw [toNat_unpackExponent]
    change _ = 255
    omega
  · have zero := congrArg BitVec.toNat zero
    rw [toNat_unpackMantissa] at zero
    change _ = 0 at zero
    omega

theorem isNaN_eq_false_iff : x.isNaN = false ↔ x.unpack ≠ .notANumber :=
  ⟨unpack_ne_notANumber, fun h => Bool.eq_false_iff.2 fun nan => h (unpack_eq_notANumber nan)⟩

theorem le_iff_isLE : x ≤ y ↔ (x.unpack.compare y.unpack).any (·.isLE) = true :=
  decide_eq_true_iff (p := x.toFloat32.toModel ≤ y.toFloat32.toModel)

theorem le_of_lt (h : x < y) : x ≤ y := by
  have lt : (x.unpack.compare y.unpack == some .lt) = true := of_decide_eq_true h
  rw [le_iff_isLE, eq_of_beq lt]
  rfl

theorem isNaN_of_le (h : x ≤ y) : x.isNaN = false ∧ y.isNaN = false := by
  rw [le_iff_isLE] at h
  rw [isNaN_eq_false_iff, isNaN_eq_false_iff]
  constructor
  · rintro nan
    rw [nan] at h
    cases h
  · rintro nan
    rw [nan] at h
    generalize x.unpack = u at h
    cases u <;> cases h

theorem le_iff_extended_le (hx : x.isNaN = false) (hy : y.isNaN = false) :
    x ≤ y ↔ extended x.unpack ≤ extended y.unpack :=
  le_iff_isLE.trans (isLE_compare_iff (canonical_unpack x) (canonical_unpack y) (unpack_ne_notANumber hx)
    (unpack_ne_notANumber hy))

theorem le_trans (h : x ≤ y) (h' : y ≤ z) : x ≤ z := by
  obtain ⟨hx, hy⟩ := isNaN_of_le h
  obtain ⟨-, hz⟩ := isNaN_of_le h'
  rw [le_iff_extended_le hx hy] at h
  rw [le_iff_extended_le hy hz] at h'
  exact (le_iff_extended_le hx hz).2 (h.trans h')

theorem lt_iff_not_le (hx : x.isNaN = false) (hy : y.isNaN = false) : x < y ↔ ¬y ≤ x :=
  ⟨not_le_of_lt, fun h => Decidable.byContradiction fun not => h (le_of_not_lt hx hy not)⟩

theorem isFinite_iff : x.isFinite = true ↔ HasValue x.unpack := by
  rw [isFinite, decide_eq_true_eq, UInt32.lt_iff_toNat_lt, toNat_abs]
  change x.toBits.toNat % 0x80000000 < 0x7f800000 ↔ _
  have exponent := toNat_unpackExponent x
  have unpacks := unpacks_unpack x.toBits.toBitVec
  rw [unpack_eq_unpack_bits]
  generalize UnpackedFloat.unpack Format.binary32 x.toBits.toBitVec = u at unpacks ⊢
  cases unpacks with
  | infinity full | nan full =>
      rw [full] at exponent
      change 255 = _ at exponent
      exact iff_of_false (by omega) nofun
  | zero least | subnormal least =>
      rw [least] at exponent
      change 0 = _ at exponent
      exact iff_of_true (by omega) trivial
  | normal finite => exact iff_of_true (by omega) trivial

theorem isNaN_of_isFinite (h : x.isFinite = true) : x.isNaN = false := by
  rw [isNaN_eq_false_iff]
  intro nan
  rw [isFinite_iff, nan] at h
  exact h

theorem isFinite_of_between (hx : x.isFinite = true) (hz : z.isFinite = true) (lower : x ≤ y) (upper : y ≤ z) :
    y.isFinite = true := by
  have number := (isNaN_of_le lower).2
  rw [le_iff_extended_le (isNaN_of_isFinite hx) number, extended_of_hasValue (isFinite_iff.1 hx)] at lower
  rw [le_iff_extended_le number (isNaN_of_isFinite hz), extended_of_hasValue (isFinite_iff.1 hz)] at upper
  rw [isNaN_eq_false_iff] at number
  rw [isFinite_iff]
  generalize y.unpack = u at number lower upper
  cases u with
  | finite | zero => trivial
  | notANumber => exact number rfl
  | infinity s =>
      cases s with
      | negative => exact WithBot.coe_ne_bot (le_bot_iff.1 lower)
      | positive => exact WithTop.coe_ne_top (top_le_iff.1 (WithBot.coe_le_coe.1 upper))

/-- Finite singles compare as the numbers that they stand for. -/
theorem le_iff_value_le (hx : x.isFinite = true) (hy : y.isFinite = true) : x ≤ y ↔ x.value ≤ y.value := by
  rw [le_iff_extended_le (isNaN_of_isFinite hx) (isNaN_of_isFinite hy)]
  exact extended_le_iff (isFinite_iff.1 hx) (isFinite_iff.1 hy)

end Danmaku.Single
