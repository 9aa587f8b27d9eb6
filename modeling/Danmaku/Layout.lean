import Danmaku.Payload
import Danmaku.Sorting

/-! Layout steps: how the bullets of a shot are placed. Steps act on a selection of the bullets. The
authored steps of a shot hold parameters and the steps of a layout hold values, so a step is stated once
for any form `f` of its numbers. -/

namespace Danmaku

/-- Positions in a shot, as the steps that follow act on them. -/
inductive Selection where
  /-- From `first` up to but without `stop`. -/
  | range (first stop : UInt32)
  | everyNth (step offset : UInt32)
  | indices (list : List UInt32)
  deriving DecidableEq

namespace Selection

def selects (s : Selection) (i : Nat) : Bool :=
  match s with
  | range first stop => first.toNat ≤ i && i < stop.toNat
  | everyNth step offset => offset.toNat ≤ i && (i - offset.toNat) % max 1 step.toNat == 0
  | indices list => list.any (·.toNat == i)

/-- The selected positions among so many, in order. -/
def among (s : Selection) (count : Nat) : List Nat :=
  match s with
  | range first stop => List.range' first.toNat (min stop.toNat count - first.toNat)
  | everyNth step offset =>
    let step := max 1 step.toNat
    List.range' offset.toNat ((count - offset.toNat + (step - 1)) / step) step
  | indices list => Sorting.sortedSet ((list.map UInt32.toNat).filter (· < count))

theorem mem_among {s : Selection} {count i : Nat} : i ∈ s.among count ↔ i < count ∧ s.selects i = true := by
  cases s with
  | range first stop =>
    simp only [among, selects, List.mem_range'_1, Bool.and_eq_true, decide_eq_true_eq]
    omega
  | everyNth step offset =>
    have hs : 0 < max 1 step.toNat := by omega
    simp only [among, selects, List.mem_range', Bool.and_eq_true, decide_eq_true_eq, beq_iff_eq]
    generalize max 1 step.toNat = k at hs
    constructor
    · rintro ⟨j, hj, rfl⟩
      have hj := (Nat.lt_div_iff_mul_lt hs).1 hj
      rw [Nat.mul_comm] at hj
      refine ⟨by omega, by omega, ?_⟩
      rw [Nat.add_sub_cancel_left, Nat.mul_mod_right]
    · rintro ⟨hi, ho, hm⟩
      obtain ⟨j, hj⟩ := Nat.dvd_of_mod_eq_zero hm
      refine ⟨j, (Nat.lt_div_iff_mul_lt hs).2 ?_, by omega⟩
      rw [Nat.mul_comm]
      omega
  | indices list =>
    simp [among, selects, Sorting.mem_sortedSet, and_comm]

theorem pairwise_among (s : Selection) (count : Nat) : (s.among count).Pairwise (· < ·) := by
  cases s with
  | range first stop => exact List.pairwise_lt_range'
  | everyNth step offset => exact List.pairwise_lt_range' _ (by omega)
  | indices list => exact Sorting.pairwise_sortedSet _

end Selection

/-- The center of a rotation or of a scale. -/
inductive Pivot where
  | origin
  /-- The point that was set last. -/
  | running
  | point (p : Vec2 Single)
  deriving DecidableEq

/-- What a spread acts on: the heading or a coordinate. -/
inductive Axis where
  | heading | x | y
  deriving DecidableEq

inductive Step (f : Type → Type) where
  | select (selection : Selection)
  | selectAll
  /-- Lays the selection out over a total. -/
  | spread (axis : Axis) (total : f Single)
  /-- Lays the selection out with a gap between neighbours. -/
  | space (axis : Axis) (gap : f Single)
  | translate (offset : f (Vec2 Single))
  /-- Along each bullet's own right and forward directions. -/
  | translateLocal (offset : f (Vec2 Single))
  | setPivot (point : f (Vec2 Single))
  | rotate (degrees : f Single) (pivot : Pivot)
  | scale (factor : f (Vec2 Single)) (pivot : Pivot)
  | lookAt (target : f (Vec2 Single))
  | lookAway (target : f (Vec2 Single))
  | reset (position heading : Bool)
  | setBullet (bullet : f AssetId)

namespace Step

/-- Changes the form of the number in a step. -/
def traverse {m : Type → Type} [Monad m] {f g : Type → Type} (number : f Single → m (g Single))
    (point : f (Vec2 Single) → m (g (Vec2 Single))) (asset : f AssetId → m (g AssetId)) : Step f → m (Step g)
  | select s => pure (select s)
  | selectAll => pure selectAll
  | spread axis n => spread axis <$> number n
  | space axis n => space axis <$> number n
  | translate p => translate <$> point p
  | translateLocal p => translateLocal <$> point p
  | setPivot p => setPivot <$> point p
  | rotate n pivot => (rotate · pivot) <$> number n
  | scale p pivot => (scale · pivot) <$> point p
  | lookAt p => lookAt <$> point p
  | lookAway p => lookAway <$> point p
  | reset position heading => pure (reset position heading)
  | setBullet a => setBullet <$> asset a

end Step

/-- A step whose numbers are known. -/
abbrev Placing := Step fun α => α

end Danmaku
