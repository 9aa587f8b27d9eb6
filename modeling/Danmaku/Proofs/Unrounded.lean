import Mathlib.Data.Rat.Floor
import Danmaku.Proofs.FullPeriod
import Danmaku.Proofs.SharedApart

/-! Seeded values are those of exact numbers. The seeds that swarms draw are the numbers `k / 2 ^ 24` in `[0, 1)`, each of
them. From such a seed no step on the way to a seeded value is rounded, so the value is what the seed and the mirrored
bits of the hash make together, without the whole part. None is rounded up to one. -/

namespace Danmaku

/-! Numbers that are held in full. -/

/-- The single is finite and stands for the number. -/
def Single.Holds (x : Single) (q : ℚ) : Prop := x.isFinite = true ∧ x.value = q

namespace Double

/-- The number that a double stands for, `0` where it is none. -/
def value (x : Float) : ℚ := Single.rational x.toModel.unpack

/-- The double is finite and stands for the number. -/
def Holds (x : Float) (q : ℚ) : Prop := Single.HasValue x.toModel.unpack ∧ value x = q

end Double

theorem mul_zpow_neg_eq_div (q : ℚ) : q * 2 ^ (-24 : ℤ) = q / 2 ^ 24 := by
  rw [zpow_neg, div_eq_mul_inv, zpow_ofNat]

theorem Single.isDraw_iff {x : Single} : x.IsDraw ↔ ∃ k : ℕ, k < 2 ^ 24 ∧ x.Holds (k / 2 ^ 24) := by
  simp only [IsDraw, Holds, mul_zpow_neg_eq_div]

namespace DrawUnits

variable {n n' : ℕ} {x y : Float}

theorem holds (h : DrawUnits n x.toModel.unpack) : Double.Holds x (n / 2 ^ 24) := by
  refine ⟨?_, h.rational_eq.trans (mul_zpow_neg_eq_div n)⟩
  generalize x.toModel.unpack = u at h
  cases h <;> trivial

theorem holds_add (hx : DrawUnits n x.toModel.unpack) (hy : DrawUnits n' y.toModel.unpack) (few : n + n' < 2 ^ 26) :
    Double.Holds (x + y) (Double.value x + Double.value y) := by
  have sum := (hx.float_add hy few).holds
  rwa [Nat.cast_add, add_div, ← hx.holds.2, ← hy.holds.2] at sum

theorem holds_fraction (h : DrawUnits n x.toModel.unpack) :
    Double.Holds (SharedKey.fraction x) (Int.fract (Double.value x)) := by
  have rest := Int.fract_div_natCast_eq_div_natCast_mod (k := ℚ) (m := n) (n := 2 ^ 24)
  rw [Nat.cast_pow, Nat.cast_ofNat] at rest
  rw [h.holds.2, rest]
  exact h.fraction.holds

end DrawUnits

namespace SharedKey

/-! The mirrored bits. -/

theorem testBit_mirror (n h i : ℕ) : (mirror n h).testBit i = (decide (i < n) && h.testBit (n - 1 - i)) := by
  induction n generalizing h with
  | zero => rw [mirror, Nat.zero_testBit, decide_eq_false (Nat.not_lt_zero i), Bool.false_and]
  | succ n ih =>
      rw [mirror, Nat.mul_comm, Nat.testBit_two_pow_mul_add _ (mirror_lt n (h / 2)), ih]
      rcases lt_trichotomy i n with below | rfl | above
      · have place : n + 1 - 1 - i = n - 1 - i + 1 := by omega
        rw [if_pos below, decide_eq_true below, decide_eq_true (Nat.lt_succ_of_lt below), place, Nat.testBit_succ]
      · have low : (h % 2).testBit 0 = h.testBit 0 := by rw [Nat.testBit_zero, Nat.testBit_zero, Nat.mod_mod]
        rw [if_neg (Nat.lt_irrefl i), decide_eq_true (Nat.lt_succ_self i), Nat.add_sub_cancel, Nat.sub_self, low,
          Bool.true_and]
      · have short : h % 2 < 2 ^ (i - n) :=
          (Nat.mod_lt h two_pos).trans_le (Nat.le_self_pow (Nat.sub_ne_zero_of_lt above) 2)
        rw [if_neg (Nat.lt_asymm above), decide_eq_false (Nat.not_lt_of_le above), Nat.testBit_lt_two_pow short,
          Bool.false_and]

/-- To mirror is to reverse a word of so many bits. -/
theorem toNat_reverse (n h : ℕ) : (BitVec.ofNat n h).reverse.toNat = mirror n h := by
  apply Nat.eq_of_testBit_eq
  intro i
  rw [testBit_mirror, BitVec.testBit_toNat, BitVec.getLsbD_reverse, BitVec.getMsbD_eq_getLsbD, BitVec.getLsbD_ofNat]
  by_cases within : i < n
  · have place : n - 1 - i < n := by omega
    rw [decide_eq_true within, decide_eq_true place, Bool.true_and]
  · rw [decide_eq_false within, Bool.false_and, Bool.false_and]

/-! The steps. -/

variable {seed : Single} {hash hash' : UInt32} {k : ℕ}

theorem holds_power {bit : ℕ} (h : bit < hashBits) :
    Double.Holds (Float.ofNat (Nat.pow 2 (bit + 1))) (2 ^ (bit + 1)) := by
  have unpacked : (Float.ofNat (Nat.pow 2 (bit + 1))).toModel.unpack =
      .finite .positive (2 ^ 52) (bit + 1 - 52) (by decide) := by
    change bit < 23 at h
    interval_cases bit <;> rfl
  have place : (2 : ℚ) ^ (bit + 1 - 52 : ℤ) = 2 ^ (bit + 1) / 2 ^ 52 := by
    rw [zpow_sub₀ two_ne_zero, ← Nat.cast_one, ← Nat.cast_add, zpow_natCast]
    rfl
  refine ⟨?_, ?_⟩
  · rw [unpacked]
    trivial
  · rw [Double.value, unpacked]
    change ((2 ^ 52 : ℤ) : ℚ) * 2 ^ (bit + 1 - 52 : ℤ) = _
    rw [place]
    push_cast
    ring

theorem holds_bitWeight {bit : ℕ} (h : bit < hashBits) : Double.Holds (bitWeight bit) (1 / 2 ^ (bit + 1)) := by
  have weight := (drawUnits_bitWeight h).holds
  have scaled : (2 : ℚ) ^ 24 = 2 ^ (23 - bit) * 2 ^ (bit + 1) := by
    change bit < 23 at h
    rw [← pow_add]
    congr 1
    omega
  rw [Nat.cast_pow, Nat.cast_ofNat, scaled, ← div_div, div_self (by positivity)] at weight
  exact weight

/-- Every step on the way to a seeded value gives the number that it stands for. -/
structure Unrounded (seed : Single) (hash : UInt32) : Prop where
  widened : Double.Holds seed.toDouble seed.value
  power : ∀ bit < hashBits, Double.Holds (Float.ofNat (Nat.pow 2 (bit + 1))) (2 ^ (bit + 1))
  weight : ∀ bit < hashBits, Double.Holds (bitWeight bit) (1 / 2 ^ (bit + 1))
  sum : ∀ bit < hashBits, hash.toNat.testBit bit = true →
    Double.Holds (partialSum seed hash bit + bitWeight bit)
      (Double.value (partialSum seed hash bit) + Double.value (bitWeight bit))
  fraction : Double.Holds (fraction (partialSum seed hash hashBits))
    (Int.fract (Double.value (partialSum seed hash hashBits)))
  narrowed : (narrowed seed hash).Holds (Double.value (SharedKey.fraction (partialSum seed hash hashBits)))

theorem unrounded (unit : k < 2 ^ 24) (drawn : seed.Holds (k / 2 ^ 24)) (hash : UInt32) : Unrounded seed hash := by
  have start := DrawUnits.toDouble drawn.1 (drawn.2.trans (mul_zpow_neg_eq_div k).symm) (unit.trans (by decide))
  have sums {n : ℕ} (within : n ≤ hashBits) := drawUnits_partialSum start unit hash within
  constructor
  case widened =>
    rw [drawn.2]
    exact start.holds
  case power => exact fun bit => holds_power
  case weight => exact fun bit => holds_bitWeight
  case sum =>
    intro bit h set
    have few := unitsBelow_lt hash (Nat.succ_le_of_lt h)
    rw [unitsBelow_succ, bitUnits, if_pos set] at few
    exact (sums h.le).holds_add (drawUnits_bitWeight h) (by omega)
  case fraction => exact (sums le_rfl).holds_fraction
  case narrowed =>
    have below := (sums le_rfl).fraction
    rw [below.holds.2, ← mul_zpow_neg_eq_div]
    exact below.ofDouble (Nat.mod_lt _ (by decide))

/-- A sum looks at the bits that it adds, and at no others. -/
theorem partialSum_congr (seed : Single) {n : ℕ} (same : hash.toNat % 2 ^ 23 = hash'.toNat % 2 ^ 23) (within : n ≤ 23) :
    partialSum seed hash n = partialSum seed hash' n := by
  induction n with
  | zero => rfl
  | succ n ih =>
      have bit := congrArg (Nat.testBit · n) same
      rw [Nat.testBit_mod_two_pow, Nat.testBit_mod_two_pow, decide_eq_true (Nat.lt_of_succ_le within), Bool.true_and,
        Bool.true_and] at bit
      rw [partialSum, partialSum, ih (Nat.le_of_succ_le within), bit]

theorem seededValue_congr (seed : Single) (same : hash.toNat % 2 ^ 23 = hash'.toNat % 2 ^ 23) :
    seededValue seed hash = seededValue seed hash' := by
  rw [seededValue_eq_ite, seededValue_eq_ite, narrowed, narrowed, hashBits, partialSum_congr seed same le_rfl]

theorem between_of_holds {x : Single} {n : ℕ} (few : n < 2 ^ 24) (h : x.Holds (n / 2 ^ 24)) : 0 ≤ x ∧ x < 1 := by
  have zero : (0 : Single).isFinite = true := by decide
  have one : (1 : Single).isFinite = true := by decide
  have below : (n : ℚ) < 2 ^ 24 := by exact_mod_cast few
  constructor
  · rw [Single.le_iff_value_le zero h.1, Single.value_zero, h.2]
    positivity
  · rw [Single.lt_iff_not_le (Single.isNaN_of_isFinite h.1) (Single.isNaN_of_isFinite one),
      Single.le_iff_value_le one h.1, Single.value_one, h.2, not_le, div_lt_one (by positivity)]
    exact below

/-- Seeded values are exact. The seeds of projectiles, in all swarms that come about, are the numbers `k / 2 ^ 24` in
`[0, 1)`, each of them. From such a seed no step rounds, whatever the hash: the value is `k` and twice the low 23 bits of
the hash in reverse, modulo `2 ^ 24`, over `2 ^ 24`. So it is in `[0, 1)`, and it is what the sum was narrowed to, which is
never one. Of a hash it tells the low 23 bits, and depends on nothing else. -/
theorem seededValue_unrounded :
    (∀ s : Swarm, s.Reachable → ∀ p ∈ s.projectiles, ∃ k : ℕ, k < 2 ^ 24 ∧ p.seed.Holds (k / 2 ^ 24)) ∧
    (∀ k : ℕ, k < 2 ^ 24 → ∃ s : Swarm, s.Reachable ∧ ∃ p ∈ s.projectiles, p.seed.Holds (k / 2 ^ 24)) ∧
    ∀ (seed : Single) (k : ℕ), k < 2 ^ 24 → seed.Holds (k / 2 ^ 24) → ∀ hash : UInt32,
      Unrounded seed hash ∧
      (seededValue seed hash).Holds
        (((k + 2 * (BitVec.ofNat 23 hash.toNat).reverse.toNat) % 2 ^ 24 : ℕ) / 2 ^ 24) ∧
      0 ≤ seededValue seed hash ∧ seededValue seed hash < 1 ∧
      ¬1 ≤ narrowed seed hash ∧ seededValue seed hash = narrowed seed hash ∧
      ∀ hash' : UInt32,
        ((seededValue seed hash).value = (seededValue seed hash').value →
          hash.toNat % 2 ^ 23 = hash'.toNat % 2 ^ 23) ∧
        (hash.toNat % 2 ^ 23 = hash'.toNat % 2 ^ 23 → seededValue seed hash = seededValue seed hash') := by
  refine ⟨fun s h p hp => Single.isDraw_iff.1 (h.keeps Swarm.keptByAll_seeded p hp), fun k unit => ?_,
    fun seed k unit drawn hash => ?_⟩
  · obtain ⟨s, reachable, p, hp, seed⟩ := Swarm.exists_seed unit
    obtain ⟨finite, value⟩ := Single.value_ofNat_mul_drawUnit unit
    refine ⟨s, reachable, p, hp, ?_⟩
    rw [seed]
    exact ⟨finite, value.trans (mul_zpow_neg_eq_div k)⟩
  · have value : seed.value = k * 2 ^ (-24 : ℤ) := drawn.2.trans (mul_zpow_neg_eq_div k).symm
    have below : (k + 2 * mirror 23 hash.toNat) % 2 ^ 24 < 2 ^ 24 := Nat.mod_lt _ (by decide)
    have guard := not_one_le_narrowed unit drawn.1 value hash
    obtain ⟨result_finite, result⟩ := seededValue_eq unit drawn.1 value hash
    rw [mul_zpow_neg_eq_div] at result
    obtain ⟨least, less⟩ := between_of_holds below ⟨result_finite, result⟩
    rw [toNat_reverse]
    refine ⟨unrounded unit drawn hash, ⟨result_finite, result⟩, least, less, guard, ?_, fun hash' => ⟨?_, ?_⟩⟩
    · rw [seededValue_eq_ite, if_neg guard]
    · intro same
      by_contra apart
      exact seededValue_ne (Single.isDraw_iff.2 ⟨k, unit, drawn⟩) apart same
    · exact seededValue_congr seed

/-- Three quarters are a seed. With a half and an eighth, which are the low bits of a hash, they make three eighths beyond a
whole; the high bits of the hash are not looked at. -/
theorem three_quarters_unrounded :
    (∃ p ∈ ((Swarm.ofSeed 11).spawnRoot {}).2.projectiles, ∃ k : ℕ, k < 2 ^ 24 ∧ p.seed.Holds (k / 2 ^ 24)) ∧
    (∃ s : Swarm, s.Reachable ∧ ∃ p ∈ s.projectiles, p.seed.Holds ((12582912 : ℕ) / 2 ^ 24)) ∧
    (Single.ofBits 0x3f400000).Holds ((12582912 : ℕ) / 2 ^ 24) ∧
    Unrounded (.ofBits 0x3f400000) 0xff800005 ∧
    (seededValue (.ofBits 0x3f400000) 0xff800005).Holds ((6291456 : ℕ) / 2 ^ 24) ∧
    (seededValue (.ofBits 0x3f400000) 0xff800005).value ≠ (seededValue (.ofBits 0x3f400000) 4).value ∧
    seededValue (.ofBits 0x3f400000) 0xff800005 = seededValue (.ofBits 0x3f400000) 5 := by
  obtain ⟨draws, drawn, values⟩ := seededValue_unrounded
  have root : ((Swarm.ofSeed 11).spawnRoot {}).2.Reachable := (Swarm.Reachable.ofSeed 11).spawnRoot {}
  have seed : (Single.ofBits 0x3f400000).Holds ((12582912 : ℕ) / 2 ^ 24) := by
    refine ⟨by decide, ?_⟩
    change ((12582912 : ℤ) : ℚ) * 2 ^ (-24 : ℤ) = _
    exact mul_zpow_neg_eq_div _
  have sum : (12582912 + 2 * (BitVec.ofNat 23 (0xff800005 : UInt32).toNat).reverse.toNat) % 2 ^ 24 = 6291456 := by
    decide
  obtain ⟨steps, result, -, -, -, -, others⟩ := values _ _ (by decide) seed 0xff800005
  rw [sum] at result
  refine ⟨⟨_, Array.mem_push_self, draws _ root _ Array.mem_push_self⟩, drawn _ (by decide), seed, steps, result, ?_,
    (others 5).2 (by decide)⟩
  exact fun same => absurd ((others 4).1 same) (by decide)

end SharedKey

end Danmaku
