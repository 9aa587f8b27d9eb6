import Mathlib
import Danmaku.Proofs.SingleOrder

/-! Unpacked numbers. A single is unpacked to a mantissa of 24 bits, or of fewer at the least exponent. Unpacked
numbers of this form are packed and unpacked without loss, so a single that is not a NaN is its unpacked form, and an
operation on two of them is that of their unpacked forms, packed. -/

namespace Danmaku.Single

open Float.Model (UnpackedFloat Format)

/-- The mantissa has 24 bits, or the exponent is the least one. -/
def Canonical : UnpackedFloat → Prop
  | .finite _ m e _ => m < 2 ^ 24 ∧ -149 ≤ e ∧ (2 ^ 23 ≤ m ∨ e = -149)
  | _ => True

/-- The exponent is not too large for a single. -/
def Fits : UnpackedFloat → Prop
  | .finite _ _ e _ => e ≤ 104
  | _ => True

theorem toNat_implicit {w : ℕ} (mantissa : BitVec w) : (1#1 ++ mantissa).toNat = 2 ^ w + mantissa.toNat := by
  rw [BitVec.toNat_append, ← Nat.shiftLeft_add_eq_or_of_lt mantissa.isLt, Nat.shiftLeft_eq]
  exact congrArg (· + _) (Nat.one_mul _)

theorem log2_of_bounds {m k : Nat} (lower : 2 ^ k ≤ m) (upper : m < 2 ^ (k + 1)) : m.log2 = k :=
  (Nat.log2_eq_iff (by have := Nat.two_pow_pos k; omega)).2 ⟨lower, upper⟩

/-! Packing. -/

/-- In every format, a mantissa of full length with an exponent that the format has is packed without loss. -/
theorem unpack_pack_of_normal (spec : Format) {s : UnpackedFloat.Sign} {m b : ℕ} {e : ℤ} {pos : 0 < m}
    (lower : 2 ^ spec.mantissaBitsWithoutImplicit ≤ m) (upper : m < 2 ^ (spec.mantissaBitsWithoutImplicit + 1))
    (biased : e + spec.exponentBias + spec.mantissaBitsWithoutImplicit = b) (normal : 0 < b)
    (finite : b + 1 < 2 ^ spec.exponentBits) :
    UnpackedFloat.unpack spec (UnpackedFloat.pack spec (.finite s m e pos)) = .finite s m e pos := by
  have held : ¬2 ^ spec.exponentBits ≤ (e + spec.exponentBias + spec.mantissaBitsWithoutImplicit).toNat + 1 := by
    rw [biased, Int.toNat_natCast]
    omega
  have full : m.log2 + 1 = spec.mantissaBits := by
    rw [log2_of_bounds lower upper, Nat.add_comm]
    rfl
  have packed : UnpackedFloat.pack spec (.finite s m e pos) = UnpackedFloat.packComponents spec s
      (.ofNat spec.exponentBits b) (.ofNat spec.mantissaBitsWithoutImplicit m) := by
    refine (if_neg held).trans ((if_pos full).trans ?_)
    rw [biased]
    rfl
  have exponent : (BitVec.ofNat spec.exponentBits b).toNat = b := Nat.mod_eq_of_lt (by omega)
  have mantissa : (1#1 ++ BitVec.ofNat spec.mantissaBitsWithoutImplicit m).toNat = m := by
    rw [pow_succ] at upper
    rw [toNat_implicit, BitVec.toNat_ofNat, Nat.mod_eq_sub_mod lower, Nat.mod_eq_of_lt (by omega)]
    omega
  have number : BitVec.ofNat spec.exponentBits b ≠ -BitVec.ofNat spec.exponentBits 1 := fun h => by
    rw [h, BitVec.neg_one_eq_allOnes, BitVec.toNat_allOnes] at exponent
    omega
  have implicit : BitVec.ofNat spec.exponentBits b ≠ BitVec.ofNat spec.exponentBits 0 := fun h => by
    rw [h, BitVec.toNat_zero] at exponent
    omega
  rw [packed, UnpackedFloat.unpack]
  simp only [UnpackedFloat.unpackExponent_packComponents, UnpackedFloat.unpackMantissa_packComponents,
    UnpackedFloat.unpackSign_packComponents, UnpackedFloat.Sign.ofBitVec_toBitVec, exponent, mantissa, if_neg number,
    if_neg implicit]
  congr 1
  omega

section

variable {s : UnpackedFloat.Sign} {m : Nat} {e : Int} {pos : 0 < m}

theorem pack_of_large (large : 104 < e) :
    UnpackedFloat.pack Format.binary32 (.finite s m e pos) = UnpackedFloat.packedInfinity Format.binary32 s :=
  if_pos (show 2 ^ 8 ≤ (e + 127 + 23).toNat + 1 by omega)

theorem pack_of_subnormal (small : m < 2 ^ 23) :
    UnpackedFloat.pack Format.binary32 (.finite s m (-149) pos) =
      UnpackedFloat.packComponents Format.binary32 s 0#8 (.ofNat 23 m) := by
  have short : ¬m.log2 + 1 = Format.binary32.mantissaBits := by
    have := (Nat.log2_lt (Nat.ne_of_gt pos)).2 small
    change ¬m.log2 + 1 = 24
    omega
  rw [UnpackedFloat.pack]
  exact (if_neg (by decide)).trans (if_neg short)

end

/-! Unpacking. -/

section

variable {b : BitVec Format.binary32.numBits}

theorem unpack_of_subnormal (exponent : UnpackedFloat.unpackExponent b = 0#8)
    (mantissa : 0 < (UnpackedFloat.unpackMantissa b).toNat) :
    UnpackedFloat.unpack Format.binary32 b = .finite (.ofBitVec (UnpackedFloat.unpackSign b))
      (UnpackedFloat.unpackMantissa b).toNat (-149) mantissa := by
  have some : UnpackedFloat.unpackMantissa b ≠ 0#23 := fun h => by
    rw [h] at mantissa
    exact Nat.lt_irrefl 0 mantissa
  have finite : UnpackedFloat.unpackExponent b ≠ -1#8 := by
    rw [exponent]
    decide
  refine (if_neg finite).trans ((if_pos exponent).trans ((dif_neg some).trans ?_))
  congr 1
  rw [exponent]
  rfl

theorem unpack_of_normal (finite : (UnpackedFloat.unpackExponent b).toNat < 255)
    (normal : 0 < (UnpackedFloat.unpackExponent b).toNat) :
    UnpackedFloat.unpack Format.binary32 b = .finite (.ofBitVec (UnpackedFloat.unpackSign b))
      (2 ^ 23 + (UnpackedFloat.unpackMantissa b).toNat) ((UnpackedFloat.unpackExponent b).toNat - 150)
      (by omega) := by
  have full : UnpackedFloat.unpackExponent b ≠ -1#8 := fun h => by
    rw [h] at finite
    exact absurd finite (by decide)
  have least : UnpackedFloat.unpackExponent b ≠ 0#8 := fun h => by
    rw [h] at normal
    exact Nat.lt_irrefl 0 normal
  refine (if_neg full).trans ((if_neg least).trans ?_)
  congr 1
  exact toNat_implicit _

theorem unpack_of_zero (exponent : UnpackedFloat.unpackExponent b = 0#8)
    (mantissa : UnpackedFloat.unpackMantissa b = 0#23) :
    UnpackedFloat.unpack Format.binary32 b = .zero (.ofBitVec (UnpackedFloat.unpackSign b)) := by
  have finite : UnpackedFloat.unpackExponent b ≠ -1#8 := by
    rw [exponent]
    decide
  exact (if_neg finite).trans ((if_pos exponent).trans (dif_pos mantissa))

theorem unpack_of_infinity (exponent : UnpackedFloat.unpackExponent b = -1#8)
    (mantissa : UnpackedFloat.unpackMantissa b = 0#23) :
    UnpackedFloat.unpack Format.binary32 b = .infinity (.ofBitVec (UnpackedFloat.unpackSign b)) :=
  (if_pos exponent).trans (if_pos mantissa)

theorem unpack_of_nan (exponent : UnpackedFloat.unpackExponent b = -1#8)
    (mantissa : UnpackedFloat.unpackMantissa b ≠ 0#23) :
    UnpackedFloat.unpack Format.binary32 b = .notANumber :=
  (if_pos exponent).trans (if_neg mantissa)

end

/-- What bits can be, by their exponent and mantissa. -/
inductive Unpacks (b : BitVec Format.binary32.numBits) : UnpackedFloat → Prop where
  | infinity (exponent : UnpackedFloat.unpackExponent b = -1#8) (mantissa : UnpackedFloat.unpackMantissa b = 0#23) :
      Unpacks b (.infinity (.ofBitVec (UnpackedFloat.unpackSign b)))
  | nan (exponent : UnpackedFloat.unpackExponent b = -1#8) (mantissa : UnpackedFloat.unpackMantissa b ≠ 0#23) :
      Unpacks b .notANumber
  | zero (exponent : UnpackedFloat.unpackExponent b = 0#8) (mantissa : UnpackedFloat.unpackMantissa b = 0#23) :
      Unpacks b (.zero (.ofBitVec (UnpackedFloat.unpackSign b)))
  | subnormal (exponent : UnpackedFloat.unpackExponent b = 0#8)
      (mantissa : 0 < (UnpackedFloat.unpackMantissa b).toNat) :
      Unpacks b (.finite (.ofBitVec (UnpackedFloat.unpackSign b)) (UnpackedFloat.unpackMantissa b).toNat (-149)
        mantissa)
  | normal (finite : (UnpackedFloat.unpackExponent b).toNat < 255)
      (normal : 0 < (UnpackedFloat.unpackExponent b).toNat) :
      Unpacks b (.finite (.ofBitVec (UnpackedFloat.unpackSign b)) (2 ^ 23 + (UnpackedFloat.unpackMantissa b).toNat)
        ((UnpackedFloat.unpackExponent b).toNat - 150) (by omega))

theorem unpacks_unpack (b : BitVec Format.binary32.numBits) : Unpacks b (UnpackedFloat.unpack Format.binary32 b) := by
  by_cases full : UnpackedFloat.unpackExponent b = -1#8
  · by_cases zero : UnpackedFloat.unpackMantissa b = 0#23
    · rw [unpack_of_infinity full zero]
      exact .infinity full zero
    · rw [unpack_of_nan full zero]
      exact .nan full zero
  · by_cases least : UnpackedFloat.unpackExponent b = 0#8
    · by_cases zero : UnpackedFloat.unpackMantissa b = 0#23
      · rw [unpack_of_zero least zero]
        exact .zero least zero
      · have pos := Nat.pos_of_ne_zero fun h => zero (BitVec.eq_of_toNat_eq h)
        rw [unpack_of_subnormal least pos]
        exact .subnormal least pos
    · have finite : (UnpackedFloat.unpackExponent b).toNat < 255 := by
        have bounded : (UnpackedFloat.unpackExponent b).toNat < 256 := (UnpackedFloat.unpackExponent b).isLt
        have other : (UnpackedFloat.unpackExponent b).toNat ≠ 255 := fun h => full (BitVec.eq_of_toNat_eq h)
        omega
      have normal := Nat.pos_of_ne_zero fun h => least (BitVec.eq_of_toNat_eq h)
      rw [unpack_of_normal finite normal]
      exact .normal finite normal

theorem canonical_unpack_bits (b : BitVec Format.binary32.numBits) :
    Canonical (UnpackedFloat.unpack Format.binary32 b) ∧ Fits (UnpackedFloat.unpack Format.binary32 b) := by
  have bounded : (UnpackedFloat.unpackMantissa b).toNat < 2 ^ 23 := (UnpackedFloat.unpackMantissa b).isLt
  have unpacks := unpacks_unpack b
  generalize UnpackedFloat.unpack Format.binary32 b = u at unpacks ⊢
  cases unpacks with
  | infinity | nan | zero => exact ⟨trivial, trivial⟩
  | subnormal => exact ⟨⟨by omega, by omega, .inr rfl⟩, show _ ≤ _ by omega⟩
  | normal => exact ⟨⟨by omega, by omega, .inl (by omega)⟩, show _ ≤ _ by omega⟩

/-- A canonical number that is not too large is packed without loss. -/
theorem unpack_pack_bits {u : UnpackedFloat} (canonical : Canonical u) (fits : Fits u) :
    UnpackedFloat.unpack Format.binary32 (UnpackedFloat.pack Format.binary32 u) = u := by
  cases u with
  | notANumber => rfl
  | infinity s => cases s <;> rfl
  | zero s => cases s <;> rfl
  | finite s m e pos =>
      obtain ⟨upper, least, shape⟩ := canonical
      by_cases lower : 2 ^ 23 ≤ m
      · change e ≤ 104 at fits
        have biased : e + 127 + 23 = (e + 150).toNat := by omega
        exact unpack_pack_of_normal Format.binary32 lower upper biased (by omega)
          (show (e + 150).toNat + 1 < 2 ^ 8 by omega)
      · obtain rfl := shape.resolve_left lower
        have mantissa : (BitVec.ofNat 23 m).toNat = m := Nat.mod_eq_of_lt (by omega)
        rw [pack_of_subnormal (by omega), unpack_of_subnormal]
        all_goals simp only [UnpackedFloat.unpackExponent_packComponents, UnpackedFloat.unpackMantissa_packComponents,
          UnpackedFloat.unpackSign_packComponents, UnpackedFloat.Sign.ofBitVec_toBitVec, mantissa]
        exact pos

/-- Bits that are not those of a NaN are those of their number. -/
theorem pack_unpack_bits {b : BitVec Format.binary32.numBits}
    (number : UnpackedFloat.unpack Format.binary32 b ≠ .notANumber) :
    UnpackedFloat.pack Format.binary32 (UnpackedFloat.unpack Format.binary32 b) = b := by
  rw [UnpackedFloat.pack_unpack b, if_neg]
  intro nan
  obtain ⟨exponent, mantissa⟩ := of_decide_eq_true nan
  exact number (unpack_of_nan exponent mantissa)

/-! Singles. -/

variable {x y : Single}

theorem unpack_eq_unpack_bits (x : Single) : x.unpack = UnpackedFloat.unpack Format.binary32 x.toBits.toBitVec :=
  unpack_pack_bits (canonical_unpack_bits _).1 (canonical_unpack_bits _).2

theorem canonical_unpack (x : Single) : Canonical x.unpack := by
  rw [unpack_eq_unpack_bits]
  exact (canonical_unpack_bits _).1

theorem fits_unpack (x : Single) : Fits x.unpack := by
  rw [unpack_eq_unpack_bits]
  exact (canonical_unpack_bits _).2

theorem pack_of_ne_notANumber {u : UnpackedFloat} (h : u ≠ .notANumber) :
    pack u = .ofBits (.ofBitVec (UnpackedFloat.pack Format.binary32 u)) := by
  have number : (UnpackedFloat.unpack Format.binary32 (UnpackedFloat.pack Format.binary32 u)).isNaN = false := by
    have kept := unpack_pack_ne_notANumber Format.binary32 h
    generalize UnpackedFloat.unpack Format.binary32 (UnpackedFloat.pack Format.binary32 u) = v at kept
    cases v with
    | notANumber => exact absurd rfl kept
    | _ => rfl
  exact if_neg (Bool.eq_false_iff.1 number)

/-- A canonical number that is not too large is unpacked as itself. -/
theorem unpack_pack {u : UnpackedFloat} (canonical : Canonical u) (fits : Fits u) : (pack u).unpack = u := by
  by_cases h : u = .notANumber
  · rw [h]
    rfl
  · rw [pack_of_ne_notANumber h, unpack_eq_unpack_bits]
    exact unpack_pack_bits canonical fits

theorem pack_unpack (h : x.isNaN = false) : pack x.unpack = x := by
  have number := unpack_ne_notANumber h
  rw [pack_of_ne_notANumber number, unpack_eq_unpack_bits, pack_unpack_bits]
  rwa [← unpack_eq_unpack_bits]

theorem add_eq_pack (hx : x.isNaN = false) (hy : y.isNaN = false) :
    x + y = pack (UnpackedFloat.add Format.binary32 x.unpack y.unpack) :=
  (if_neg (Bool.eq_false_iff.1 hx)).trans (if_neg (Bool.eq_false_iff.1 hy))

theorem sub_eq_pack (hx : x.isNaN = false) (hy : y.isNaN = false) :
    x - y = pack (UnpackedFloat.sub Format.binary32 x.unpack y.unpack) :=
  (if_neg (Bool.eq_false_iff.1 hx)).trans (if_neg (Bool.eq_false_iff.1 hy))

theorem mul_eq_pack (hx : x.isNaN = false) (hy : y.isNaN = false) :
    x * y = pack (UnpackedFloat.mul Format.binary32 x.unpack y.unpack) :=
  (if_neg (Bool.eq_false_iff.1 hx)).trans (if_neg (Bool.eq_false_iff.1 hy))

theorem div_eq_pack (hx : x.isNaN = false) (hy : y.isNaN = false) :
    x / y = pack (UnpackedFloat.div Format.binary32 x.unpack y.unpack) :=
  (if_neg (Bool.eq_false_iff.1 hx)).trans (if_neg (Bool.eq_false_iff.1 hy))

end Danmaku.Single
