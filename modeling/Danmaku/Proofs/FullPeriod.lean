import Mathlib.Data.UInt
import Mathlib.Tactic.LinearCombination
import Danmaku.Proofs.SeededValues
import Danmaku.Proofs.SharedValues

/-! The generator leaves out no state. The multiplier is one more than a multiple of four and the increment is odd, so as
many steps as a power of two change a state by an odd multiple of that power. In this way the bits of any state are
set one after the other, from the lowest to the highest. Every word is the output of some state, so every draw is
made in the end, whatever the seed. -/

namespace Danmaku

namespace Pcg

open scoped UInt64.CommRing

/-- The state after another. -/
def following (increment state : UInt64) : UInt64 := state * multiplier + increment

theorem iterate_draw (g : Pcg) (n : ℕ) :
    (fun g : Pcg => g.draw.2)^[n] g = ⟨(following g.increment)^[n] g.state, g.increment⟩ := by
  induction n with
  | zero => rfl
  | succ n ih =>
      rw [Function.iterate_succ_apply', Function.iterate_succ_apply', ih]
      rfl

theorem eq_two_mul_or (w : UInt64) : ∃ v, w = 2 * v ∨ w = 2 * v + 1 := by
  have word := w.toNat_lt
  refine ⟨w / 2, ?_⟩
  rw [← UInt64.toNat_inj, ← UInt64.toNat_inj, UInt64.toNat_add, UInt64.toNat_mul, UInt64.toNat_div]
  change w.toNat = 2 * (w.toNat / 2) % 2 ^ 64 ∨ w.toNat = (2 * (w.toNat / 2) % 2 ^ 64 + 1) % 2 ^ 64
  omega

section

variable {c : UInt64} (odd : ∃ v, c = 2 * v + 1)

include odd

/-- So many steps as a power of two add an odd multiple of it. -/
theorem exists_two_pow_steps (j : ℕ) :
    ∃ t v, ∀ s, (following c)^[2 ^ j] s = s + 2 ^ j * (4 * t * s + 2 * v + 1) := by
  induction j with
  | zero =>
      obtain ⟨v, rfl⟩ := odd
      have form : multiplier = 4 * (multiplier / 4) + 1 := by decide
      refine ⟨multiplier / 4, v, fun s => ?_⟩
      change s * multiplier + (2 * v + 1) = _
      linear_combination s * form
  | succ j ih =>
      obtain ⟨t, v, ih⟩ := ih
      refine ⟨t * (1 + 2 ^ (j + 1) * t), v * (1 + 2 ^ (j + 1) * t) + 2 ^ j * t, fun s => ?_⟩
      rw [pow_succ, mul_two, Function.iterate_add_apply, ih, ih]
      ring

/-- Some steps come to a state with the same low bits. -/
theorem exists_iterate_add (s w : UInt64) (j : ℕ) : ∃ n v, w = (following c)^[n] s + 2 ^ j * v := by
  induction j with
  | zero => exact ⟨0, w - s, by rw [Function.iterate_zero_apply, pow_zero, one_mul, add_sub_cancel]⟩
  | succ j ih =>
      obtain ⟨n, v, met⟩ := ih
      rcases eq_two_mul_or v with ⟨u, rfl | rfl⟩
      · refine ⟨n, u, met.trans ?_⟩
        ring
      · -- The next bit differs, and `2 ^ j` further steps turn it over.
        obtain ⟨t, v, steps⟩ := exists_two_pow_steps odd j
        refine ⟨2 ^ j + n, u - 2 * t * (following c)^[n] s - v, met.trans ?_⟩
        rw [Function.iterate_add_apply, steps]
        ring

/-- Every state is met. -/
theorem exists_iterate_eq (s w : UInt64) : ∃ n, (following c)^[n] s = w := by
  obtain ⟨n, v, met⟩ := exists_iterate_add odd s w 64
  have none : (2 : UInt64) ^ 64 = 0 := by decide +kernel
  rw [none, zero_mul, add_zero] at met
  exact ⟨n, met.symm⟩

end

theorem increment_ofSeed (seed : UInt64) : ∃ v, (ofSeed seed).increment = 2 * v + 1 := by
  obtain ⟨w, form⟩ : ∃ w, (ofSeed seed).increment = w ||| 1 := ⟨_, rfl⟩
  obtain ⟨v, even | odd⟩ := eq_two_mul_or (w ||| 1)
  · have bit := congrArg (fun w : UInt64 => w.toNat % 2) even
    rw [UInt64.toNat_or, UInt64.toNat_mul] at bit
    change (w.toNat ||| 1) % 2 = 2 * v.toNat % 2 ^ 64 % 2 at bit
    rw [Nat.or_mod_two_eq_one.2 (Or.inr rfl)] at bit
    omega
  · exact ⟨v, form.trans odd⟩

/-- A shift-xor that is made twice is one of twice the width. -/
theorem shift_xor_twice (a n : ℕ) : (a ^^^ a >>> n) >>> n ^^^ (a ^^^ a >>> n) = a ^^^ a >>> (2 * n) := by
  have far : a >>> n >>> n = a >>> (2 * n) := by rw [← Nat.shiftRight_add, ← Nat.two_mul]
  rw [Nat.shiftRight_xor_distrib, far, Nat.xor_comm (a >>> n), Nat.xor_assoc, Nat.xor_comm a, ← Nat.xor_assoc (a >>> n),
    Nat.xor_self, Nat.zero_xor, Nat.xor_comm]

/-- Every word is an output: of a state that is not rotated, and that has gone through the shift-xor of the output before. -/
theorem exists_output (w : UInt32) : ∃ s, output s = w := by
  have word := w.toNat_lt
  obtain ⟨a, placed⟩ : ∃ a, w.toNat * 2 ^ 27 = a := ⟨_, rfl⟩
  have small : a < 2 ^ 59 := by omega
  have short : a ^^^ a >>> 18 < 2 ^ 59 := Nat.xor_lt_two_pow small ((Nat.shiftRight_le a 18).trans_lt small)
  obtain ⟨s, state⟩ : ∃ s : UInt64, s.toNat = a ^^^ a >>> 18 :=
    ⟨.ofNat (a ^^^ a >>> 18), UInt64.toNat_ofNat_of_lt' (short.trans (by decide))⟩
  have turn : s >>> 59 = 0 := by
    apply UInt64.toNat_inj.1
    change s.toNat >>> 59 = 0
    rw [state, Nat.shiftRight_eq_div_pow, Nat.div_eq_of_lt short]
  have kept : (((s >>> 18) ^^^ s) >>> 27).toUInt32 = w := by
    have far : a >>> (2 * 18 + 27) = 0 := by
      rw [Nat.shiftRight_eq_div_pow]
      exact Nat.div_eq_of_lt (small.trans (by decide))
    have near : a >>> 27 = w.toNat := by
      rw [Nat.shiftRight_eq_div_pow]
      omega
    apply UInt32.toNat_inj.1
    change (s.toNat >>> 18 ^^^ s.toNat) >>> 27 % 2 ^ 32 = w.toNat
    rw [state, shift_xor_twice, Nat.shiftRight_xor_distrib, ← Nat.shiftRight_add, far, near, Nat.xor_zero,
      Nat.mod_eq_of_lt word]
  have none : (0 : UInt64).toUInt32 = 0 := rfl
  have around : (32 - 0 : UInt32) &&& 31 = 0 := by decide
  refine ⟨s, ?_⟩
  rw [output, turn, kept, none, around, UInt32.shiftRight_zero, UInt32.shiftLeft_zero, UInt32.or_self]

/-- Each draw is made after some others. -/
theorem exists_draw (seed : UInt64) {k : ℕ} (few : k < 2 ^ 24) :
    ∃ n, ((fun g : Pcg => g.draw.2)^[n] (ofSeed seed)).draw.1 = .ofNat k * .drawUnit := by
  obtain ⟨s, out⟩ := exists_output (.ofNat (k * 2 ^ 8))
  obtain ⟨n, met⟩ := exists_iterate_eq (increment_ofSeed seed) (ofSeed seed).state s
  have units : (UInt32.ofNat (k * 2 ^ 8) >>> 8).toNat = k := by
    change (k * 2 ^ 8 % 2 ^ 32) >>> 8 = k
    rw [Nat.shiftRight_eq_div_pow]
    omega
  refine ⟨n, ?_⟩
  rw [iterate_draw, met, draw_eq, out, units]

end Pcg

namespace Swarm

/-- So many draws, and nothing else. -/
theorem Reachable.draws {s : Swarm} (h : s.Reachable) (n : ℕ) :
    ∃ t : Swarm, t.Reachable ∧ t.generator = (fun g : Pcg => g.draw.2)^[n] s.generator := by
  induction n with
  | zero => exact ⟨s, h, rfl⟩
  | succ n ih =>
      obtain ⟨t, reachable, drawn⟩ := ih
      refine ⟨t.draw.2, reachable.draw, ?_⟩
      rw [Function.iterate_succ_apply', ← drawn]
      rfl

/-- Every draw is the seed of some projectile. -/
theorem exists_seed {k : ℕ} (few : k < 2 ^ 24) :
    ∃ s : Swarm, s.Reachable ∧ ∃ p ∈ s.projectiles, p.seed = .ofNat k * .drawUnit := by
  obtain ⟨n, drawn⟩ := Pcg.exists_draw 0 few
  obtain ⟨s, reachable, generator⟩ := (Reachable.ofSeed 0).draws n
  refine ⟨(s.spawn none {}).2, reachable.spawn none {}, _, Array.mem_push_self, ?_⟩
  rw [← drawn]
  exact congrArg (fun g : Pcg => g.draw.1) generator

end Swarm

end Danmaku
