import Danmaku.Single

/-! The order of single-precision numbers. They compare as their unpacked forms do, so any two of them compare unless
one is a NaN, and what is clamped lies within its bounds. -/

namespace Danmaku.Single

open Float.Model (UnpackedFloat Format)

theorem compare_swap (u v : UnpackedFloat) : v.compare u = (u.compare v).map Ordering.swap := by
  have magnitudes (m n : Nat) (e f : Int) :
      (compare f e).then (compare n m) = ((compare e f).then (compare m n)).swap := by
    rw [Ordering.swap_then, ← Std.OrientedOrd.eq_swap, ← Std.OrientedOrd.eq_swap]
  cases u with
  | finite s m e h =>
      cases v with
      | finite r n f h' =>
          cases s <;> cases r
          · exact congrArg (some ·.swap) (magnitudes m n e f)
          · rfl
          · rfl
          · exact congrArg some (magnitudes m n e f)
      | infinity r => cases s <;> cases r <;> rfl
      | _ => cases s <;> rfl
  | infinity s =>
      cases v with
      | finite r n f h' => cases s <;> cases r <;> rfl
      | infinity r => cases s <;> cases r <;> rfl
      | _ => cases s <;> rfl
  | _ =>
      cases v with
      | finite r n f h' => cases r <;> rfl
      | infinity r => cases r <;> rfl
      | _ => rfl

theorem isSome_compare {u v : UnpackedFloat} (hu : u ≠ .notANumber) (hv : v ≠ .notANumber) :
    (u.compare v).isSome = true := by
  cases u with
  | notANumber => exact absurd rfl hu
  | finite s m e h =>
      cases v with
      | notANumber => exact absurd rfl hv
      | finite r n f h' => cases s <;> cases r <;> rfl
      | infinity r => cases s <;> cases r <;> rfl
      | zero r => cases s <;> rfl
  | infinity s =>
      cases v with
      | notANumber => exact absurd rfl hv
      | _ => cases s <;> rfl
  | zero s =>
      cases v with
      | notANumber => exact absurd rfl hv
      | finite r n f h' | infinity r => cases r <;> rfl
      | zero r => rfl

section

variable {spec : Format}

/-- A NaN has all bits of the exponent set. -/
theorem unpack_ne_of_exponent {bits : BitVec spec.numBits} (h : UnpackedFloat.unpackExponent bits ≠ -1#_) :
    UnpackedFloat.unpack spec bits ≠ .notANumber := by
  change (if UnpackedFloat.unpackExponent bits = -1#_ then _ else _) ≠ _
  rw [if_neg h]
  by_cases small : UnpackedFloat.unpackExponent bits = 0#_
  · rw [if_pos small]
    by_cases zero : UnpackedFloat.unpackMantissa bits = 0#_
    · rw [dif_pos zero]
      nofun
    · rw [dif_neg zero]
      nofun
  · rw [if_neg small]
    nofun

/-- An infinity has no bit of the mantissa set. -/
theorem unpack_packedInfinity_ne (s : UnpackedFloat.Sign) :
    UnpackedFloat.unpack spec (UnpackedFloat.packedInfinity spec s) ≠ .notANumber := by
  have exponent : UnpackedFloat.unpackExponent (UnpackedFloat.packedInfinity spec s) = -1#_ :=
    UnpackedFloat.unpackExponent_packComponents
  have mantissa : UnpackedFloat.unpackMantissa (UnpackedFloat.packedInfinity spec s) = 0#_ :=
    UnpackedFloat.unpackMantissa_packComponents
  change (if UnpackedFloat.unpackExponent _ = -1#_ then _ else _) ≠ _
  rw [if_pos exponent, if_pos mantissa]
  nofun

/-- The exponents of zeros and of subnormal numbers have no bit set. -/
theorem unpack_packComponents_zero_ne (s : UnpackedFloat.Sign) (mantissa : BitVec spec.mantissaBitsWithoutImplicit) :
    UnpackedFloat.unpack spec (UnpackedFloat.packComponents spec s 0#_ mantissa) ≠ .notANumber := by
  refine unpack_ne_of_exponent fun full => ?_
  rw [UnpackedFloat.unpackExponent_packComponents, BitVec.neg_one_eq_allOnes] at full
  have value := congrArg BitVec.toNat full
  rw [BitVec.toNat_allOnes, BitVec.toNat_ofNat, Nat.zero_mod] at value
  have large := Nat.one_lt_two_pow (Nat.ne_of_gt spec.he)
  omega

theorem unpack_pack_ne_notANumber (spec : Format) {u : UnpackedFloat} (h : u ≠ .notANumber) :
    UnpackedFloat.unpack spec (UnpackedFloat.pack spec u) ≠ .notANumber := by
  cases u with
  | notANumber => exact absurd rfl h
  | infinity s => exact unpack_packedInfinity_ne s
  | zero s => exact unpack_packComponents_zero_ne s _
  | finite s m e hm =>
      unfold UnpackedFloat.pack
      dsimp only
      split
      · exact unpack_packedInfinity_ne s
      · rename_i small
        split
        · refine unpack_ne_of_exponent fun full => small ?_
          rw [UnpackedFloat.unpackExponent_packComponents, BitVec.neg_one_eq_allOnes] at full
          have value := congrArg BitVec.toNat full
          rw [BitVec.toNat_ofNat, BitVec.toNat_allOnes, Nat.mod_eq_of_lt (by omega)] at value
          omega
        · exact unpack_packComponents_zero_ne s _

end

theorem toNat_abs (x : Single) : x.abs.toBits.toNat = x.toBits.toNat % 0x80000000 := by
  rw [abs, UInt32.toNat_and]
  exact Nat.and_two_pow_sub_one_eq_mod _ 31

theorem toNat_unpackExponent (x : Single) :
    (@UnpackedFloat.unpackExponent Format.binary32 x.toBits.toBitVec).toNat = x.toBits.toNat / 0x800000 % 0x100 := by
  rw [UnpackedFloat.unpackExponent, BitVec.toNat_cast, BitVec.extractLsb_toNat]
  change x.toBits.toNat >>> 23 % 2 ^ 8 = _
  rw [Nat.shiftRight_eq_div_pow]

theorem toNat_unpackMantissa (x : Single) :
    (@UnpackedFloat.unpackMantissa Format.binary32 x.toBits.toBitVec).toNat = x.toBits.toNat % 0x800000 := by
  rw [UnpackedFloat.unpackMantissa, BitVec.toNat_cast, BitVec.extractLsb_toNat]
  rfl

/-- The bits of a NaN are above those of the infinities. -/
theorem unpack_ne_notANumber {x : Single} (h : x.isNaN = false) : x.unpack ≠ .notANumber := by
  rw [isNaN, decide_eq_false_iff_not, UInt32.lt_iff_toNat_lt, toNat_abs, Nat.not_lt] at h
  change x.toBits.toNat % 0x80000000 ≤ 0x7f800000 at h
  let bits : BitVec Format.binary32.numBits := x.toBits.toBitVec
  refine unpack_pack_ne_notANumber Format.binary32 (u := UnpackedFloat.unpack Format.binary32 bits) fun marked => ?_
  have exponent : UnpackedFloat.unpackExponent bits = -1#_ :=
    Decidable.byContradiction fun other => unpack_ne_of_exponent other marked
  have mantissa : UnpackedFloat.unpackMantissa bits = 0#_ := by
    have full := congrArg BitVec.toNat exponent
    rw [toNat_unpackExponent] at full
    change _ = 255 at full
    apply BitVec.eq_of_toNat_eq
    rw [toNat_unpackMantissa]
    change _ = 0
    omega
  change (if UnpackedFloat.unpackExponent bits = -1#_ then _ else _) = _ at marked
  rw [if_pos exponent, if_pos mantissa] at marked
  cases marked

variable {x y lo hi : Single}

theorem not_le_of_lt (h : x < y) : ¬y ≤ x := by
  intro h'
  have lt : (x.unpack.compare y.unpack == some .lt) = true := of_decide_eq_true h
  have le : (y.unpack.compare x.unpack).any (·.isLE) = true := of_decide_eq_true h'
  rw [compare_swap, eq_of_beq lt] at le
  cases le

/-- Numbers compare, unless one is a NaN. -/
theorem le_of_not_lt (hx : x.isNaN = false) (hy : y.isNaN = false) (h : ¬x < y) : y ≤ x := by
  obtain ⟨o, compared⟩ := Option.isSome_iff_exists.1
    (isSome_compare (unpack_ne_notANumber hx) (unpack_ne_notANumber hy))
  have lt : (x.unpack.compare y.unpack == some .lt) = false :=
    eq_false_of_ne_true fun lt => h (decide_eq_true (p := x.toFloat32.toModel < y.toFloat32.toModel) lt)
  have le : (y.unpack.compare x.unpack).any (·.isLE) = true := by
    rw [compared] at lt
    rw [compare_swap, compared]
    cases o with
    | lt => cases lt
    | _ => rfl
  exact decide_eq_true (p := y.toFloat32.toModel ≤ x.toFloat32.toModel) le

theorem lt_irrefl (x : Single) : ¬x < x := by
  intro h
  have lt : (x.unpack.compare x.unpack == some .lt) = true := of_decide_eq_true h
  have swapped := compare_swap x.unpack x.unpack
  rw [eq_of_beq lt] at swapped
  cases swapped

/-- A number is clamped into the bounds. -/
theorem clamp_between (hx : x.isNaN = false) (hlo : lo.isNaN = false) (hhi : hi.isNaN = false) (bounds : lo ≤ hi) :
    lo ≤ x.clamp lo hi ∧ x.clamp lo hi ≤ hi := by
  unfold clamp
  split
  · exact ⟨le_of_not_lt hlo hlo (lt_irrefl lo), bounds⟩
  · rename_i above
    split
    · exact ⟨bounds, le_of_not_lt hhi hhi (lt_irrefl hi)⟩
    · rename_i below
      exact ⟨le_of_not_lt hx hlo above, le_of_not_lt hhi hx below⟩

/-- A number within the bounds is left as it is. -/
theorem clamp_eq_self (lower : lo ≤ x) (upper : x ≤ hi) : x.clamp lo hi = x := by
  rw [clamp, if_neg fun h => not_le_of_lt h lower, if_neg fun h => not_le_of_lt h upper]

end Danmaku.Single
