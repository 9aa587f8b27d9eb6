import Danmaku.Proofs.SingleRounding

/-! Laws of rounded arithmetic. One and the zeros are neutral, up to the sign of zero; a zero times an infinity is none.
Among singles that are not negative, a sum is not below its terms, also where it is rounded or too large, and a quotient
is not negative. -/

namespace Danmaku.Single

open Float.Model (UnpackedFloat Format)

variable {x y z : Single}

/-! One and zero. -/

theorem mul_one_eq (h : x.isNaN = false) : x * 1 = x := by
  rw [mul_eq_pack h rfl]
  refine Eq.trans (congrArg pack ?_) (pack_unpack h)
  have canonical := canonical_unpack x
  have number := unpack_ne_notANumber h
  generalize x.unpack = u at canonical number
  cases u with
  | notANumber => exact absurd rfl number
  | infinity s | zero s => cases s <;> rfl
  | finite s m e pos =>
      have rounds := rounds_mul canonical (canonical_unpack 1) trivial trivial
      have one : rational (unpack 1) = 1 := value_one
      rw [one, mul_one] at rounds
      have kept := rounds.exact (onGrid_rational canonical)
      refine eq_of_rational_eq rounds.canonical canonical rounds.hasValue trivial kept ?_
      rw [kept, rational, cast_apply, mul_assoc]
      have := rational_pos (e := e) pos
      cases s <;> simp [UnpackedFloat.Sign.apply, this.ne']

theorem eq_pack_zero {s : UnpackedFloat.Sign} (h : x.unpack = .zero s) : x = pack (.zero s) := by
  rw [← h, pack_unpack]
  rw [isNaN_eq_false_iff, h]
  nofun

/-- A zero of either sign is added without effect, but for `0` to `-0`. -/
theorem add_eq_self_iff (hx : x.isNaN = false) (hz : z = 0 ∨ z = -0) : x + z = x ↔ (x = -0 → z = -0) := by
  cases u : x.unpack with
  | notANumber => exact absurd u (unpack_ne_notANumber hx)
  | zero s =>
      rw [eq_pack_zero u]
      rcases hz with rfl | rfl <;> cases s <;> decide
  | infinity | finite =>
      have other : x ≠ -0 := by
        rintro rfl
        cases u
      refine iff_of_true (Eq.trans ?_ (pack_unpack hx)) fun h => absurd h other
      rw [u]
      rcases hz with rfl | rfl <;> exact (add_eq_pack hx rfl).trans (by rw [u]; rfl)

theorem zero_add_comm (hx : x.isNaN = false) (hz : z = 0 ∨ z = -0) : z + x = x + z := by
  have number : z.isNaN = false := by rcases hz with rfl | rfl <;> rfl
  rw [add_eq_pack number hx, add_eq_pack hx number]
  have zero : z.unpack = .zero .positive ∨ z.unpack = .zero .negative := by
    rcases hz with rfl | rfl
    · exact .inl rfl
    · exact .inr rfl
  congr 1
  cases x.unpack with
  | notANumber | infinity | finite => rcases zero with zero | zero <;> rw [zero] <;> rfl
  | zero s => rcases zero with zero | zero <;> rw [zero] <;> cases s <;> rfl

theorem isNaN_quiet (h : x.isNaN = true) : x.quiet.isNaN = true := by
  rw [isNaN, decide_eq_true_eq, UInt32.lt_iff_toNat_lt] at h ⊢
  refine h.trans_le ?_
  change (x.toBits &&& 0x7fffffff).toNat ≤ ((x.toBits ||| 0x400000) &&& 0x7fffffff).toNat
  rw [UInt32.toNat_and, UInt32.toNat_and, UInt32.toNat_or, Nat.and_or_distrib_right]
  exact Nat.left_le_or

theorem le_of_le_add_zero (h : x ≤ y + 0) : x ≤ y := by
  cases number : y.isNaN with
  | true =>
      have quiet : y + 0 = y.quiet := if_pos number
      have none := (isNaN_of_le h).2
      rw [quiet, isNaN_quiet number] at none
      cases none
  | false =>
      by_cases negative : y = -0
      · have zero : (-0 : Single) + 0 ≤ -0 := by decide
        rw [negative] at h ⊢
        exact le_trans h zero
      · rwa [(add_eq_self_iff number (.inl rfl)).2 fun h => absurd h negative] at h

/-- Zero times a finite number has the sign of the number. -/
theorem mul_zero_of_isFinite (h : y.isFinite = true) :
    (y * 0 = 0 ∨ y * 0 = -0) ∧ (y * 0 = -0 ↔ y < 0 ∨ y = -0) := by
  have positive : pack (.zero .positive) = 0 := by decide
  have negative : pack (.zero .negative) = -0 := by decide
  cases u : y.unpack with
  | infinity | notANumber =>
      rw [isFinite_iff, u] at h
      exact h.elim
  | zero s =>
      rw [eq_pack_zero u]
      cases s <;> decide
  | finite s m e pos =>
      have other : y ≠ -0 := by
        rintro rfl
        cases u
      have product : y * 0 = pack (.zero s) := by
        rw [mul_eq_pack (isNaN_of_isFinite h) rfl, u]
        cases s <;> rfl
      have sign : y < 0 ↔ y.value < 0 := by
        rw [lt_iff_not_le (isNaN_of_isFinite h) rfl, le_iff_value_le rfl h, value_zero, not_le]
      have value : y.value = s.apply 1 * (m * 2 ^ e) := by rw [value, u, rational, cast_apply, mul_assoc]
      have magnitude := rational_pos (e := e) pos
      rw [product, sign, value]
      cases s with
      | negative =>
          refine ⟨.inr negative, iff_of_true negative (.inl ?_)⟩
          simpa [UnpackedFloat.Sign.apply] using magnitude
      | positive =>
          refine ⟨.inl positive, iff_of_false (by decide) (not_or.2 ⟨?_, other⟩)⟩
          simpa [UnpackedFloat.Sign.apply] using magnitude.le

theorem mul_zero_of_infinite (h : y.isNaN = false) (infinite : y.isFinite = false) : y * 0 = invalid := by
  rw [mul_eq_pack h rfl]
  have number := unpack_ne_notANumber h
  rw [Bool.eq_false_iff, ne_eq, isFinite_iff] at infinite
  generalize y.unpack = u at number infinite
  cases u with
  | notANumber => exact absurd rfl number
  | zero | finite => exact absurd trivial infinite
  | infinity s => cases s <;> decide

theorem add_invalid (h : x.isNaN = false) : x + invalid = invalid :=
  (if_neg (Bool.eq_false_iff.1 h)).trans rfl

/-! Signs. -/

theorem le_infinity (h : x.isNaN = false) : x ≤ infinity :=
  (le_iff_extended_le h rfl).2 le_top

/-- The sign is `+`. -/
def Unsigned : UnpackedFloat → Prop
  | .zero s | .infinity s | .finite s .. => s = .positive
  | .notANumber => False

theorem unpack_of_pos (h : 0 < x) :
    x.unpack = .infinity .positive ∨ ∃ m e pos, x.unpack = .finite .positive m e pos := by
  have lt : (unpack 0).compare x.unpack = some .lt := eq_of_beq (of_decide_eq_true h)
  generalize x.unpack = u at lt
  cases u with
  | notANumber | zero => cases lt
  | infinity s =>
      cases s with
      | negative => cases lt
      | positive => exact .inl rfl
  | finite s m e pos =>
      cases s with
      | negative => cases lt
      | positive => exact .inr ⟨m, e, pos, rfl⟩

theorem isNaN_of_pos (h : 0 < x) : x.isNaN = false := by
  rw [isNaN_eq_false_iff]
  rcases unpack_of_pos h with u | ⟨m, e, pos, u⟩ <;> rw [u] <;> nofun

theorem zero_le_of_unsigned (h : Unsigned x.unpack) : 0 ≤ x := by
  rw [le_iff_isLE]
  generalize x.unpack = u at h
  cases u with
  | notANumber => exact h.elim
  | zero => rfl
  | infinity | finite =>
      cases h
      rfl

theorem zero_le_of_pos (h : 0 < x) : 0 ≤ x := by
  refine zero_le_of_unsigned ?_
  rcases unpack_of_pos h with u | ⟨m, e, pos, u⟩ <;> rw [u] <;> rfl

theorem unpackSign_pack {m : ℕ} {e : ℤ} (s : UnpackedFloat.Sign) (pos : 0 < m) :
    UnpackedFloat.unpackSign (UnpackedFloat.pack Format.binary32 (.finite s m e pos)) = s.toBitVec := by
  unfold UnpackedFloat.pack
  dsimp only
  split
  · exact UnpackedFloat.unpackSign_packComponents _ _ _
  · split
    · exact UnpackedFloat.unpackSign_packComponents _ _ _
    · exact UnpackedFloat.unpackSign_packComponents _ _ _

theorem unsigned_unpack_pack {u : UnpackedFloat} (h : Unsigned u) : Unsigned (pack u).unpack := by
  cases u with
  | notANumber => exact h.elim
  | zero | infinity =>
      cases h
      rfl
  | finite s m e pos =>
      cases h
      have number : UnpackedFloat.finite .positive m e pos ≠ .notANumber := nofun
      have kept := unpack_pack_ne_notANumber Format.binary32 number
      have sign := unpackSign_pack (e := e) .positive pos
      rw [pack_of_ne_notANumber number, unpack_eq_unpack_bits]
      change Unsigned (UnpackedFloat.unpack Format.binary32 (UnpackedFloat.pack Format.binary32 _))
      have unpacks := unpacks_unpack (UnpackedFloat.pack Format.binary32 (.finite .positive m e pos))
      generalize UnpackedFloat.unpack Format.binary32 _ = v at kept unpacks ⊢
      cases unpacks with
      | nan => exact absurd rfl kept
      | infinity | zero | subnormal | normal =>
          rw [sign]
          rfl

theorem unsigned_roundWithAccuracy (m : ℕ) (e : ℤ) (accuracy : UnpackedFloat.Accuracy) :
    Unsigned (UnpackedFloat.roundWithAccuracy Format.binary32 .positive m e accuracy) := by
  unfold UnpackedFloat.roundWithAccuracy
  dsimp only
  split
  · rfl
  · rfl

theorem isNaN_pack {u : UnpackedFloat} (h : u ≠ .notANumber) : (pack u).isNaN = false := by
  rw [isNaN_eq_false_iff, pack_of_ne_notANumber h, unpack_eq_unpack_bits]
  exact unpack_pack_ne_notANumber Format.binary32 h

/-! Quotients. -/

theorem zero_div_eq (h : 0 < y) : (0 : Single) / y = 0 := by
  have zero : pack (.zero .positive) = 0 := by decide
  refine Eq.trans ?_ zero
  rw [div_eq_pack rfl (isNaN_of_pos h)]
  rcases unpack_of_pos h with u | ⟨m, e, pos, u⟩ <;> rw [u] <;> rfl

theorem zero_le_div (finite : x.isFinite = true) (hx : 0 < x) (hy : 0 < y) : 0 ≤ x / y := by
  refine zero_le_of_unsigned ?_
  rw [div_eq_pack (isNaN_of_pos hx) (isNaN_of_pos hy)]
  refine unsigned_unpack_pack ?_
  rcases unpack_of_pos hx with u | ⟨m, e, pos, u⟩
  · rw [isFinite_iff, u] at finite
    exact finite.elim
  · rcases unpack_of_pos hy with v | ⟨n, f, pos', v⟩
    · rw [u, v]
      rfl
    · rw [u, v]
      exact unsigned_roundWithAccuracy _ _ _

/-! Sums. -/

theorem eq_infinity (h : 0 ≤ x) (infinite : x.isFinite = false) : x = infinity := by
  have number := (isNaN_of_le h).2
  rw [← pack_unpack number]
  rw [le_iff_isLE] at h
  rw [Bool.eq_false_iff, ne_eq, isFinite_iff] at infinite
  generalize x.unpack = u at h infinite
  cases u with
  | zero | finite => exact absurd trivial infinite
  | notANumber => cases h
  | infinity s =>
      cases s with
      | negative => cases h
      | positive => decide

theorem infinity_add_eq (h : 0 ≤ x) : infinity + x = infinity ∧ x + infinity = infinity := by
  cases finite : x.isFinite with
  | false =>
      rw [eq_infinity h finite]
      decide
  | true =>
      have infinite : pack (.infinity .positive) = infinity := by decide
      rw [add_eq_pack rfl (isNaN_of_isFinite finite), add_eq_pack (isNaN_of_isFinite finite) rfl, ← infinite]
      rw [isFinite_iff] at finite
      generalize x.unpack = u at finite
      cases u with
      | infinity | notANumber => exact finite.elim
      | zero | finite => exact ⟨rfl, rfl⟩

/-- What is too large becomes infinite. -/
theorem le_pack {u : UnpackedFloat} (canonical : Canonical u) (hasValue : HasValue u) (finite : x.isFinite = true)
    (nonneg : 0 ≤ rational u) (le : x.value ≤ rational u) : x ≤ pack u := by
  have number : u ≠ .notANumber := by
    rintro rfl
    exact hasValue
  rw [le_iff_extended_le (isNaN_of_isFinite finite) (isNaN_pack number)]
  by_cases fits : Fits u
  · rw [unpack_pack canonical fits]
    exact (extended_le_iff (isFinite_iff.1 finite) hasValue).2 le
  · have large : pack u = infinity := by
      rw [pack_of_ne_notANumber number]
      cases u with
      | notANumber | infinity | zero => exact absurd trivial fits
      | finite s m e pos =>
          cases s with
          | negative =>
              have := rational_pos (e := e) pos
              simp only [rational, UnpackedFloat.Sign.apply] at nonneg
              push_cast at nonneg
              linarith
          | positive =>
              rw [pack_of_large (Int.not_le.1 fits)]
              rfl
    rw [large]
    exact le_top

/-- A sum is not below its terms, also if it is rounded or too large. -/
theorem le_add (hx : 0 ≤ x) (hy : 0 ≤ y) : x ≤ x + y ∧ y ≤ x + y := by
  have x_number := (isNaN_of_le hx).2
  have y_number := (isNaN_of_le hy).2
  cases fx : x.isFinite with
  | false =>
      rw [eq_infinity hx fx, (infinity_add_eq hy).1]
      exact ⟨le_infinity rfl, le_infinity y_number⟩
  | true =>
      cases fy : y.isFinite with
      | false =>
          rw [eq_infinity hy fy, (infinity_add_eq hx).2]
          exact ⟨le_infinity x_number, le_infinity rfl⟩
      | true =>
          rw [le_iff_value_le rfl fx, value_zero] at hx
          rw [le_iff_value_le rfl fy, value_zero] at hy
          have rounds := rounds_add (canonical_unpack x) (canonical_unpack y) (isFinite_iff.1 fx) (isFinite_iff.1 fy)
          have x_le := rounds.ge (onGrid_value x) (le_add_of_nonneg_right hy)
          have y_le := rounds.ge (onGrid_value y) (le_add_of_nonneg_left hx)
          rw [add_eq_pack x_number y_number]
          exact ⟨le_pack rounds.canonical rounds.hasValue fx (hx.trans x_le) x_le,
            le_pack rounds.canonical rounds.hasValue fy (hx.trans x_le) y_le⟩

end Danmaku.Single
