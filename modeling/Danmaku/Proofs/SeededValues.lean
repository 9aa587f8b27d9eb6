import Danmaku.Proofs.ExactDoubles

/-! Seeded values in closed form. The low bits of a hash are mirrored to a fraction, which is added to the seed, and what
makes a whole is dropped. Where the seed is a number of draw units nothing of this is rounded, so hashes with other low
bits give other values. -/

namespace Danmaku

/-- A number of draw units below one. -/
def Single.IsDraw (x : Single) : Prop :=
  ∃ k : ℕ, k < 2 ^ 24 ∧ x.isFinite = true ∧ x.value = k * 2 ^ (-24 : ℤ)

theorem Single.IsDraw.isFinite {x : Single} (h : x.IsDraw) : x.isFinite = true := by
  obtain ⟨k, -, finite, -⟩ := h
  exact finite

/-- A draw is made of its number of draw units without rounding. -/
theorem Single.value_ofNat_mul_drawUnit {k : ℕ} (few : k < 2 ^ 24) :
    (Single.ofNat k * .drawUnit).isFinite = true ∧ (Single.ofNat k * .drawUnit).value = k * 2 ^ (-24 : ℤ) := by
  have rounds : Single.Rounds k (Single.ofNat k).unpack := by
    rw [Single.ofNat, Single.unpack_ofFloat32]
    exact Single.rounds_ofNat (few.le.trans (Nat.pow_le_pow_right (by decide) (by decide)))
  have number : (Single.ofNat k).value = k :=
    rounds.exact (Single.onGrid_intCast (k := k) (by rw [Nat.abs_cast]; exact_mod_cast few.le))
  have unit : Single.drawUnit.value = 2 ^ (-24 : ℤ) := by
    change ((2 ^ 23 : ℤ) : ℚ) * 2 ^ (-47 : ℤ) = _
    norm_num
  have product := Single.rounds_value_mul rounds.isFinite (y := .drawUnit) (by decide) (by
    rw [number, unit]
    exact DrawUnits.magnitude_le few)
  rw [number, unit] at product
  exact ⟨product.isFinite, product.exact (DrawUnits.onGrid few)⟩

namespace Pcg

theorem draw_eq (g : Pcg) : g.draw.1 = .ofNat (output g.state >>> 8).toNat * .drawUnit := rfl

theorem toNat_shiftRight_lt (w : UInt32) : (w >>> 8).toNat < 2 ^ 24 := by
  have word := w.toNat_lt
  change w.toNat >>> 8 < 2 ^ 24
  rw [Nat.shiftRight_eq_div_pow]
  omega

theorem isDraw_draw (g : Pcg) : g.draw.1.IsDraw := by
  have few := toNat_shiftRight_lt (output g.state)
  rw [draw_eq]
  exact ⟨_, few, Single.value_ofNat_mul_drawUnit few⟩

end Pcg

namespace SharedKey

/-- The low bits of a number, so many of them, in reverse. -/
def mirror : ℕ → ℕ → ℕ
  | 0, _ => 0
  | n + 1, h => h % 2 * 2 ^ n + mirror n (h / 2)

theorem mirror_lt (n h : ℕ) : mirror n h < 2 ^ n := by
  induction n generalizing h with
  | zero => exact Nat.one_pos
  | succ n ih =>
      have rest := ih (h / 2)
      rw [mirror, pow_succ]
      rcases Nat.mod_two_eq_zero_or_one h with bit | bit <;> rw [bit] <;> omega

/-- What is mirrored can be told again. -/
theorem mirror_inj {n h h' : ℕ} : mirror n h = mirror n h' ↔ h % 2 ^ n = h' % 2 ^ n := by
  induction n generalizing h h' with
  | zero => simp [mirror, Nat.mod_one]
  | succ n ih =>
      have rest := mirror_lt n (h / 2)
      have rest' := mirror_lt n (h' / 2)
      rw [mirror, mirror, pow_succ', Nat.mod_mul, Nat.mod_mul]
      have := @ih (h / 2) (h' / 2)
      rcases Nat.mod_two_eq_zero_or_one h with bit | bit <;>
        rcases Nat.mod_two_eq_zero_or_one h' with bit' | bit' <;> rw [bit, bit'] <;> omega

/-- The draw units that a bit of a hash adds. -/
def bitUnits (n h bit : ℕ) : ℕ := if h.testBit bit then 2 ^ (n - bit) else 0

theorem bitUnits_zero (n h : ℕ) : bitUnits (n + 1) h 0 = 2 * (h % 2 * 2 ^ n) := by
  rw [bitUnits, Nat.testBit_zero, Nat.sub_zero, pow_succ']
  rcases Nat.mod_two_eq_zero_or_one h with bit | bit <;> simp [bit]

theorem bitUnits_succ (n h bit : ℕ) : bitUnits (n + 1) h (bit + 1) = bitUnits n (h / 2) bit := by
  rw [bitUnits, bitUnits, Nat.testBit_succ, Nat.add_sub_add_right]

theorem sum_bitUnits (n h : ℕ) : ((List.range n).map (bitUnits n h)).sum = 2 * mirror n h := by
  induction n generalizing h with
  | zero => rfl
  | succ n ih =>
      have later : (List.range n).map (bitUnits (n + 1) h ∘ Nat.succ) = (List.range n).map (bitUnits n (h / 2)) :=
        List.map_congr_left fun bit _ => bitUnits_succ n h bit
      rw [List.range_succ_eq_map, List.map_cons, List.map_map, later, List.sum_cons, ih, bitUnits_zero, mirror, mul_add]

open Float.Model (UnpackedFloat)

theorem unpack_bitWeight {bit : ℕ} (h : bit < 23) :
    (bitWeight bit).toModel.unpack = .finite .positive (2 ^ 52) (-53 - bit) (by decide) := by
  interval_cases bit <;> rfl

theorem drawUnits_bitWeight {bit : ℕ} (h : bit < 23) : DrawUnits (2 ^ (23 - bit)) (bitWeight bit).toModel.unpack := by
  have scaled : 2 ^ 52 = 2 ^ (23 - bit) * 2 ^ (29 + bit) := by
    rw [← Nat.pow_add]
    congr 1
    omega
  have units := DrawUnits.finite (by decide) le_rfl (by decide) scaled
  have place : (-24 - (29 + bit : ℕ) : ℤ) = -53 - bit := by omega
  rw [unpack_bitWeight h]
  simpa only [place] using units

theorem drawUnits_add_bit {h n bit : ℕ} {x : Float} (within : bit < 23) (units : DrawUnits n x.toModel.unpack)
    (few : n + bitUnits 23 h bit < 2 ^ 26) : DrawUnits (n + bitUnits 23 h bit)
      (if h.testBit bit then x + bitWeight bit else x).toModel.unpack := by
  unfold bitUnits at few ⊢
  by_cases set : h.testBit bit = true
  · rw [if_pos set] at few
    rw [if_pos set, if_pos set]
    exact units.float_add (drawUnits_bitWeight within) few
  · rw [if_neg set, if_neg set]
    exact units

/-! The sum, bit by bit. -/

variable {seed : Single} {hash hash' : UInt32} {k n : ℕ}

/-- The seed in double precision, with what the first bits of the hash add to it. -/
def partialSum (seed : Single) (hash : UInt32) : ℕ → Float
  | 0 => seed.toDouble
  | n + 1 => if hash.toNat.testBit n then partialSum seed hash n + bitWeight n else partialSum seed hash n

theorem foldl_eq_partialSum (seed : Single) (hash : UInt32) (n : ℕ) :
    (List.range n).foldl (fun sum bit => if hash.toNat.testBit bit then sum + bitWeight bit else sum) seed.toDouble =
      partialSum seed hash n := by
  induction n with
  | zero => rfl
  | succ n ih =>
      rw [List.range_succ, List.foldl_append, ih]
      rfl

/-- The draw units that the first bits of a hash add. -/
def unitsBelow (hash : UInt32) (n : ℕ) : ℕ := ((List.range n).map (bitUnits 23 hash.toNat)).sum

theorem unitsBelow_succ (hash : UInt32) (n : ℕ) :
    unitsBelow hash (n + 1) = unitsBelow hash n + bitUnits 23 hash.toNat n := by
  rw [unitsBelow, unitsBelow, List.range_succ, List.map_append, List.sum_append, List.map_singleton, List.sum_singleton]

theorem unitsBelow_hashBits (hash : UInt32) : unitsBelow hash hashBits = 2 * mirror 23 hash.toNat :=
  sum_bitUnits 23 hash.toNat

/-- However many bits were added, the weights of those to come would not make a whole of it. -/
theorem unitsBelow_add_le (hash : UInt32) (within : n ≤ hashBits) : unitsBelow hash n + 2 ^ (24 - n) ≤ 2 ^ 24 := by
  change n ≤ 23 at within
  induction n with
  | zero => exact (Nat.zero_add _).le
  | succ n ih =>
      have before := ih (Nat.le_of_succ_le within)
      have bit : bitUnits 23 hash.toNat n ≤ 2 ^ (23 - n) := by
        unfold bitUnits
        split
        · exact le_rfl
        · exact Nat.zero_le _
      have halves : 2 ^ (24 - n) = 2 * 2 ^ (23 - n) := by
        rw [← pow_succ', ← Nat.sub_add_comm (Nat.le_of_succ_le within)]
      rw [unitsBelow_succ, Nat.add_sub_add_right 23 1 n]
      omega

theorem unitsBelow_lt (hash : UInt32) (within : n ≤ hashBits) : unitsBelow hash n < 2 ^ 24 :=
  (Nat.lt_add_of_pos_right (Nat.two_pow_pos _)).trans_le (unitsBelow_add_le hash within)

/-- The bits are added without rounding. -/
theorem drawUnits_partialSum (start : DrawUnits k seed.toDouble.toModel.unpack) (unit : k < 2 ^ 24) (hash : UInt32)
    (within : n ≤ hashBits) : DrawUnits (k + unitsBelow hash n) (partialSum seed hash n).toModel.unpack := by
  induction n with
  | zero => exact start
  | succ n ih =>
      have few := unitsBelow_lt hash within
      rw [unitsBelow_succ] at few
      rw [unitsBelow_succ, ← Nat.add_assoc]
      exact drawUnits_add_bit within (ih (Nat.le_of_succ_le within)) (by omega)

/-- The seeded value before one is made zero. -/
def narrowed (seed : Single) (hash : UInt32) : Single := .ofDouble (fraction (partialSum seed hash hashBits))

theorem seededValue_eq_ite (seed : Single) (hash : UInt32) :
    seededValue seed hash = if 1 ≤ narrowed seed hash then 0 else narrowed seed hash := by
  rw [narrowed, ← foldl_eq_partialSum]
  rfl

theorem narrowed_eq (unit : k < 2 ^ 24) (finite : seed.isFinite = true) (value : seed.value = k * 2 ^ (-24 : ℤ))
    (hash : UInt32) : (narrowed seed hash).isFinite = true ∧
      (narrowed seed hash).value = ((k + 2 * mirror 23 hash.toNat) % 2 ^ 24 : ℕ) * 2 ^ (-24 : ℤ) := by
  have start := DrawUnits.toDouble finite value (unit.trans (by decide))
  have sum := drawUnits_partialSum start unit hash le_rfl
  rw [unitsBelow_hashBits] at sum
  exact sum.fraction.ofDouble (Nat.mod_lt _ (by decide))

/-- No result is rounded up to one. -/
theorem not_one_le_narrowed (unit : k < 2 ^ 24) (finite : seed.isFinite = true)
    (value : seed.value = k * 2 ^ (-24 : ℤ)) (hash : UInt32) : ¬1 ≤ narrowed seed hash := by
  obtain ⟨result_finite, result⟩ := narrowed_eq unit finite value hash
  have below : (((k + 2 * mirror 23 hash.toNat) % 2 ^ 24 : ℕ) : ℚ) < 2 ^ 24 := by
    exact_mod_cast Nat.mod_lt _ (by decide)
  rw [Single.le_iff_value_le (by decide) result_finite, Single.value_one, not_le, result]
  calc _ < (2 : ℚ) ^ 24 * 2 ^ (-24 : ℤ) := mul_lt_mul_of_pos_right below (by positivity)
    _ = 1 := by norm_num

/-- The seeded value, for a seed of so many draw units. -/
theorem seededValue_eq (unit : k < 2 ^ 24) (finite : seed.isFinite = true)
    (value : seed.value = k * 2 ^ (-24 : ℤ)) (hash : UInt32) :
    (seededValue seed hash).isFinite = true ∧
      (seededValue seed hash).value = ((k + 2 * mirror 23 hash.toNat) % 2 ^ 24 : ℕ) * 2 ^ (-24 : ℤ) := by
  rw [seededValue_eq_ite, if_neg (not_one_le_narrowed unit finite value hash)]
  exact narrowed_eq unit finite value hash

/-- Hashes that differ in their low bits give other values of a seed. -/
theorem seededValue_ne (drawn : seed.IsDraw) (apart : hash.toNat % 2 ^ 23 ≠ hash'.toNat % 2 ^ 23) :
    (seededValue seed hash).value ≠ (seededValue seed hash').value := by
  obtain ⟨k, unit, finite, value⟩ := drawn
  have mirrored := mirror_lt 23 hash.toNat
  have mirrored' := mirror_lt 23 hash'.toNat
  rw [(seededValue_eq unit finite value hash).2, (seededValue_eq unit finite value hash').2]
  intro same
  have same : (k + 2 * mirror 23 hash.toNat) % 2 ^ 24 = (k + 2 * mirror 23 hash'.toNat) % 2 ^ 24 :=
    Nat.cast_injective (mul_right_cancel₀ (by positivity) same)
  exact apart (mirror_inj.1 (by omega))

theorem isDraw_seededValue (drawn : seed.IsDraw) (hash : UInt32) : (seededValue seed hash).IsDraw := by
  obtain ⟨k, unit, finite, value⟩ := drawn
  obtain ⟨result_finite, result⟩ := seededValue_eq unit finite value hash
  exact ⟨_, Nat.mod_lt _ (by decide), result_finite, result⟩

end SharedKey

end Danmaku
