import Danmaku.Single

/-! Number types that curves and layouts compute with. Single precision is the one in use; with the
rationals the same definitions say what they compute when nothing is rounded. -/

namespace Danmaku

class Scalar (α : Type) extends Add α, Sub α, Mul α, Div α, Neg α, LT α, LE α where
  literal : ∀ n, OfNat α n
  decidableLT : DecidableLT α
  decidableLE : DecidableLE α
  ofNat : Nat → α
  isNaN : α → Bool := fun _ => false
  /-- A total order on all of `α`, for sorting. -/
  totalLe : α → α → Bool
  totalLe_trans : ∀ x y z, totalLe x y = true → totalLe y z = true → totalLe x z = true
  totalLe_total : ∀ x y, (totalLe x y || totalLe y x) = true

namespace Scalar

variable {α : Type} [Scalar α]

instance (n : Nat) : OfNat α n := literal n

instance : DecidableLT α := decidableLT

instance : DecidableLE α := decidableLE

/-- The smaller one; the first of two that are equal. -/
@[specialize] def least (x y : α) : α := if y < x then y else x

/-- The larger one; the first of two that are equal. -/
@[specialize] def greatest (x y : α) : α := if x < y then y else x

instance : Scalar Single where
  literal n := ⟨Single.ofNat n⟩
  decidableLT := inferInstance
  decidableLE := inferInstance
  ofNat := Single.ofNat
  isNaN := Single.isNaN
  totalLe := Single.totalLe
  totalLe_trans := Single.totalLe_trans
  totalLe_total := Single.totalLe_total

instance : Scalar Rat where
  literal _ := inferInstance
  decidableLT := inferInstance
  decidableLE := inferInstance
  ofNat n := n
  totalLe x y := x ≤ y
  totalLe_trans x y z h h' := by
    simp only [decide_eq_true_eq] at *
    exact Rat.le_trans h h'
  totalLe_total x y := by
    simp only [Bool.or_eq_true, decide_eq_true_eq]
    exact Rat.le_total

end Scalar

end Danmaku
