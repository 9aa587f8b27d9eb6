import Danmaku.Blendable
import Danmaku.Proofs.SingleArithmetic

/-! The ends of blends. At `0` a blend of singles adds the other end times zero to its first end, and at `1` the first
end times zero to the other. So it gives the end itself unless the product is none, where the other end is infinite, or
has the wrong sign, where the end is `-0` and the other end has the sign `+`. Blends of several components do so in each
of them. Blends of integers and switches give their ends as they are. -/

namespace Danmaku

namespace Single

variable {x y : Single}

/-- Zero times `y` is added to `x` without effect. -/
def Spares (y x : Single) : Prop := y.isFinite = true ∧ (x = -0 → y < 0 ∨ y = -0)

section

variable (hx : x.isNaN = false) (hy : y.isNaN = false)

include hx hy

theorem add_mul_zero_eq_iff : x + y * 0 = x ↔ Spares y x := by
  cases finite : y.isFinite with
  | true =>
      obtain ⟨zero, sign⟩ := mul_zero_of_isFinite finite
      rw [add_eq_self_iff hx zero, sign, Spares, finite]
      exact (and_iff_right rfl).symm
  | false =>
      rw [mul_zero_of_infinite hy finite, add_invalid hx]
      refine iff_of_false ?_ fun h => ?_
      · rintro rfl
        cases hx
      · rw [Spares, finite] at h
        cases h.1

theorem mul_zero_add_comm : y * 0 + x = x + y * 0 := by
  cases finite : y.isFinite with
  | true => exact zero_add_comm hx (mul_zero_of_isFinite finite).1
  | false =>
      rw [mul_zero_of_infinite hy finite, add_invalid hx]
      rfl

theorem lerp_zero_eq_iff : x.lerp y 0 = x ↔ Spares y x := by
  have complement : (1 - 0 : Single) = 1 := by decide
  rw [lerp, complement, mul_one_eq hx]
  exact add_mul_zero_eq_iff hx hy

theorem lerp_one_eq_iff : x.lerp y 1 = y ↔ Spares x y := by
  have complement : (1 - 1 : Single) = 0 := by decide
  rw [lerp, complement, mul_one_eq hy, mul_zero_add_comm hy hx]
  exact add_mul_zero_eq_iff hy hx

end

end Single

namespace Blendable

open Single (Spares)

/-- The blend has its ends exactly if each part that is blended as a single is spared by that of the other end. No part
is a NaN. -/
def EndsIfSpared (α : Type) [Blendable α] (parts : α → List Single) : Prop :=
  ∀ x y : α, (∀ p ∈ parts x, p.isNaN = false) → (∀ p ∈ parts y, p.isNaN = false) →
    (blend x y 0 = x ↔ List.Forall₂ Spares (parts y) (parts x)) ∧
    (blend x y 1 = y ↔ List.Forall₂ Spares (parts x) (parts y))

/-- What holds of one part holds of a list of them. -/
theorem zipWith_eq_self_iff {f : Single → Single → Single}
    (part : ∀ p q : Single, p.isNaN = false → q.isNaN = false → (f p q = p ↔ Spares q p)) {ps qs : List Single}
    (same : ps.length = qs.length) (hp : ∀ p ∈ ps, p.isNaN = false) (hq : ∀ q ∈ qs, q.isNaN = false) :
    List.zipWith f ps qs = ps ↔ List.Forall₂ Spares qs ps := by
  induction ps generalizing qs with
  | nil =>
      obtain rfl := List.eq_nil_of_length_eq_zero same.symm
      exact iff_of_true rfl .nil
  | cons p ps ih =>
      cases qs with
      | nil => cases same
      | cons q qs =>
          rw [List.forall_mem_cons] at hp hq
          rw [List.zipWith_cons_cons, List.cons.injEq, List.forall₂_cons, part p q hp.1 hq.1,
            ih (Nat.succ.inj same) hp.2 hq.2]

theorem switch_zero {α : Type} (x y : α) : switch x y 0 = x := if_pos (by decide)

theorem switch_one {α : Type} (x y : α) : switch x y 1 = y := if_neg (by decide)

theorem int_zero (m n : Int32) : blend m n 0 = m := if_pos (by decide)

theorem int_one (m n : Int32) : blend m n 1 = n := (if_neg (by decide)).trans (if_pos (by decide))

variable {α : Type} [Blendable α]

/-- A value is blended part by part. -/
theorem endsIfSpared_of_parts {parts : α → List Single} (determined : Function.Injective parts)
    (same : ∀ x y, (parts x).length = (parts y).length)
    (blended : ∀ x y t, parts (blend x y t) = List.zipWith (·.lerp · t) (parts x) (parts y)) :
    EndsIfSpared α parts := by
  intro x y hx hy
  rw [← determined.eq_iff, ← determined.eq_iff (b := y), blended, blended]
  refine ⟨zipWith_eq_self_iff (fun _ _ => Single.lerp_zero_eq_iff) (same x y) hx hy, ?_⟩
  rw [List.zipWith_comm]
  exact zipWith_eq_self_iff (fun _ _ hp hq => Single.lerp_one_eq_iff hq hp) (same y x) hy hx

/-- Ends that are taken as they are. -/
theorem endsIfSpared_of_ends (first : ∀ x y : α, blend x y 0 = x) (last : ∀ x y : α, blend x y 1 = y) :
    EndsIfSpared α fun _ => [] :=
  fun x y _ _ => ⟨iff_of_true (first x y) .nil, iff_of_true (last x y) .nil⟩

/-- The types of value. -/
inductive ValueType where
  | float | int | bool | vec2 | vec3 | vec4 | color | curve | text | asset

namespace ValueType

def Value : ValueType → Type
  | float => Single
  | int => Int32
  | bool => Bool
  | vec2 => Vec2 Single
  | vec3 => Vec3
  | vec4 => Vec4
  | color => Color
  | curve => Curve Single
  | text => String
  | asset => AssetId

instance : (τ : ValueType) → Blendable τ.Value
  | float => inferInstanceAs (Blendable Single)
  | int => inferInstanceAs (Blendable Int32)
  | bool => inferInstanceAs (Blendable Bool)
  | vec2 => inferInstanceAs (Blendable (Vec2 Single))
  | vec3 => inferInstanceAs (Blendable Vec3)
  | vec4 => inferInstanceAs (Blendable Vec4)
  | color => inferInstanceAs (Blendable Color)
  | curve => inferInstanceAs (Blendable (Curve Single))
  | text => inferInstanceAs (Blendable String)
  | asset => inferInstanceAs (Blendable AssetId)

/-- The parts of a value that are blended as singles. -/
def parts : (τ : ValueType) → τ.Value → List Single
  | float => fun x => [x]
  | vec2 => fun (v : Vec2 Single) => [v.x, v.y]
  | vec3 => fun (v : Vec3) => [v.x, v.y, v.z]
  | vec4 => fun (v : Vec4) => [v.x, v.y, v.z, v.w]
  | color => fun (c : Color) => [c.r, c.g, c.b, c.a]
  | int | bool | curve | text | asset => fun _ => []

theorem endsIfSpared (τ : ValueType) : EndsIfSpared τ.Value τ.parts := by
  cases τ with
  | float => exact endsIfSpared_of_parts (fun _ _ => List.singleton_inj.1) (fun _ _ => rfl) fun _ _ _ => rfl
  | vec2 | vec3 | vec4 | color =>
      refine endsIfSpared_of_parts ?_ (fun _ _ => rfl) fun _ _ _ => rfl
      rintro ⟨⟩ ⟨⟩ h
      cases h
      rfl
  | int => exact endsIfSpared_of_ends int_zero int_one
  | bool | curve | text | asset => exact endsIfSpared_of_ends switch_zero switch_one

end ValueType

/-- Of every type of value, a blend has its first end at `0` and its other end at `1` exactly if each part of that end
is spared by the part of the other: always, if no part is blended as a single, or if all parts are finite and none is
`-0`. -/
theorem blend_ends_iff (τ : ValueType) (x y : τ.Value) (hx : ∀ p ∈ τ.parts x, p.isNaN = false)
    (hy : ∀ p ∈ τ.parts y, p.isNaN = false) :
    (blend x y 0 = x ↔ List.Forall₂ Spares (τ.parts y) (τ.parts x)) ∧
    (blend x y 1 = y ↔ List.Forall₂ Spares (τ.parts x) (τ.parts y)) :=
  τ.endsIfSpared x y hx hy

theorem blend_ends_of_vec2 : blend (⟨1, -2⟩ : Vec2 Single) ⟨3, 4⟩ 0 = ⟨1, -2⟩ ∧
    blend (⟨1, -2⟩ : Vec2 Single) ⟨3, 4⟩ 1 = ⟨3, 4⟩ := by
  have spared : Spares 3 1 ∧ Spares 4 (-2) ∧ Spares 1 3 ∧ Spares (-2) 4 := by
    simp only [Spares]
    decide +kernel
  obtain ⟨first, last⟩ := blend_ends_iff .vec2 (⟨1, -2⟩ : Vec2 Single) (⟨3, 4⟩ : Vec2 Single) (by decide +kernel)
    (by decide +kernel)
  exact ⟨first.2 (.cons spared.1 (.cons spared.2.1 .nil)), last.2 (.cons spared.2.2.1 (.cons spared.2.2.2 .nil))⟩

/-- An infinite end, or a zero of the other sign, changes the end that is asked for. -/
theorem blend_changes_ends : (1 : Single).isNaN = false ∧ Single.infinity.isNaN = false ∧
    blend (1 : Single) Single.infinity 0 ≠ 1 ∧ (-0 : Single).isNaN = false ∧ blend (-0 : Single) 1 0 ≠ -0 := by
  decide

end Blendable

end Danmaku
