import Mathlib.Data.List.Pairwise
import Danmaku.Demo
import Danmaku.Player.Act

/-! The trees of numbers in a program, and those that a listing of its defects looks at. A number can be the value of
an instruction, the duration that an edit is spread over, the number of bullets of a shot, or the number in one of its
modifiers. The listing looks at the waits, the turns, the speeds, the numbers of iterations and the numbers of bullets.
It lists all defects of those, in order, and no other. So a program without listed defects is one whose numbers have no
defects as long as the other trees have none. -/

namespace Danmaku

/-- A tree whose values are numbers. -/
inductive NumberTree where
  | single (tree : Tree Single)
  | int (tree : Tree Int32)

def NumberTree.defects : NumberTree → List Tree.Defect
  | single tree => tree.defects
  | int tree => tree.defects

def Step.numbers : Step Param → List NumberTree
  | spread _ p | space _ p | rotate p _ => [.single p.tree]
  | translate _ | translateLocal _ | setPivot _ | scale .. | lookAt _ | lookAway _ | setBullet _ => []
  | select _ | selectAll | reset .. => []

def Shot.modifierNumbers (shot : Shot) : List NumberTree := shot.modifiers.flatMap Step.numbers

def Shot.numbers (shot : Shot) : List NumberTree := .int shot.count.tree :: shot.modifierNumbers

def Edit.numbers : Edit Param → List NumberTree
  | number _ p | curveNumber _ _ p => [.single p.tree]
  | point .. | color .. | setCurve .. | tags .. => []
  | setFold .. | playback .. | retarget _ => []

def Timing.numbers : Timing → List NumberTree
  | instant => []
  | progressive duration _ => [.single duration.tree]

namespace Action

def numbers : Action → List NumberTree
  | wait p | setCustom _ p | addCustom _ p => [.single p.tree]
  | beginLoop p _ => [.int p.tree]
  | shoot shot => shot.numbers
  | edit e => e.numbers
  | playAudio _ | playVfx _ | stopVfx _ => []
  | endLoop | die | toggle .. | command .. => []

/-- The trees whose defects are listed. -/
def listed : Action → List NumberTree
  | wait p | edit (.number .rotate p) | edit (.number .setSpeed p) => [.single p.tree]
  | beginLoop p _ => [.int p.tree]
  | shoot shot => [.int shot.count.tree]
  | _ => []

/-- The trees of numbers that are passed over. -/
def unlisted : Action → List NumberTree
  | shoot shot => shot.modifierNumbers
  | edit (.number .rotate _) | edit (.number .setSpeed _) => []
  | edit e => e.numbers
  | setCustom _ p | addCustom _ p => [.single p.tree]
  | _ => []

theorem numbers_eq (a : Action) : a.numbers = a.listed ++ a.unlisted := by
  cases a with
  | edit e =>
      cases e with
      | number what p => cases what <;> rfl
      | _ => rfl
  | _ => rfl

end Action

theorem Kind.defectsAt_eq (k : Kind) : Program.defectsAt k = k.action.listed.flatMap NumberTree.defects := by
  have alone (t : NumberTree) : t.defects = [t].flatMap NumberTree.defects := (List.flatMap_singleton _ _).symm
  cases k with
  | wait p => exact alone (.single p.tree)
  | beginLoop p endless => exact alone (.int p.tree)
  | shoot shot => exact alone (.int shot.count.tree)
  | rotate p | setSpeed p => exact alone (.single p.tree)
  | _ => rfl

namespace Instruction

/-- All trees of numbers in an instruction. -/
def numbers (i : Instruction) : List NumberTree := i.action.numbers ++ i.timing.numbers

def unlisted (i : Instruction) : List NumberTree := i.action.unlisted ++ i.timing.numbers

theorem numbers_eq (i : Instruction) : i.numbers = i.action.listed ++ i.unlisted := by
  rw [numbers, Action.numbers_eq, List.append_assoc, unlisted]

end Instruction

namespace Program

variable {p : Program} {k : Nat} {d : Tree.Defect}

theorem mem_defects_iff : (k, d) ∈ p.defects ↔
    ∃ i, p.instructions[k]? = some i ∧ ∃ t ∈ i.action.listed, d ∈ t.defects := by
  simp only [defects, List.mem_flatMap, List.mem_map, Prod.exists, List.mem_zipIdx_iff_getElem?, Kind.defectsAt_eq,
    List.mem_flatMap, Prod.mk.injEq, Instruction.action]
  constructor
  · rintro ⟨i, k, at_k, d, of_tree, rfl, rfl⟩
    exact ⟨i, at_k, of_tree⟩
  · rintro ⟨i, at_k, of_tree⟩
    exact ⟨i, k, at_k, d, of_tree, rfl, rfl⟩

theorem defects_eq_nil_iff : p.defects = [] ↔ ∀ i ∈ p.instructions, ∀ t ∈ i.action.listed, t.defects = [] := by
  constructor
  · intro empty i hi t ht
    obtain ⟨k, at_k⟩ := List.mem_iff_getElem?.1 hi
    refine List.eq_nil_iff_forall_not_mem.2 fun d hd => ?_
    have mem : (k, d) ∈ p.defects := mem_defects_iff.2 ⟨i, at_k, t, ht, hd⟩
    rw [empty] at mem
    cases mem
  · intro clean
    refine List.eq_nil_iff_forall_not_mem.2 fun (k, d) mem => ?_
    obtain ⟨i, at_k, t, ht, hd⟩ := mem_defects_iff.1 mem
    rw [clean i (List.mem_iff_getElem?.2 ⟨k, at_k⟩) t ht] at hd
    cases hd

/-- Defects are listed instruction by instruction. -/
theorem pairwise_defects (p : Program) : p.defects.Pairwise fun x y => x.1 ≤ y.1 := by
  have ascending : p.instructions.zipIdx.Pairwise fun x y => x.2 < y.2 := by
    rw [← List.pairwise_map (f := Prod.snd) (R := (· < ·)), List.zipIdx_map_snd]
    exact List.pairwise_lt_range'
  refine List.pairwise_flatMap.2 ⟨fun (i, k) _ => ?_, ascending.imp fun {a b} lt x hx y hy => ?_⟩
  · exact List.pairwise_map.2 (List.pairwise_of_forall fun _ _ => Nat.le_refl k)
  · obtain ⟨-, -, rfl⟩ := List.mem_map.1 hx
    obtain ⟨-, -, rfl⟩ := List.mem_map.1 hy
    exact Nat.le_of_lt lt

/-- What the listed defects of a program say of its numbers, over all its instructions with their timings and the
modifiers of their shots. Each listed pair is an instruction and a defect of a tree of numbers in it, and the positions
ascend. All defects of the trees that are looked at are listed, and no other. So the numbers are without defects
exactly if none are listed and the trees that are passed over have none. -/
theorem defects_of_numbers (p : Program) :
    (∀ k d, (k, d) ∈ p.defects → ∃ i, p.instructions[k]? = some i ∧ ∃ t ∈ i.numbers, d ∈ t.defects) ∧
    (p.defects.map (·.1)).Pairwise (· ≤ ·) ∧
    (∀ k d, (k, d) ∈ p.defects ↔ ∃ i, p.instructions[k]? = some i ∧ ∃ t ∈ i.action.listed, d ∈ t.defects) ∧
    ((∀ i ∈ p.instructions, ∀ t ∈ i.numbers, t.defects = []) ↔
      p.defects = [] ∧ ∀ i ∈ p.instructions, ∀ t ∈ i.unlisted, t.defects = []) := by
  refine ⟨fun k d mem => ?_, List.pairwise_map.2 p.pairwise_defects, fun k d => mem_defects_iff, ?_⟩
  · obtain ⟨i, at_k, t, ht, hd⟩ := mem_defects_iff.1 mem
    exact ⟨i, at_k, t, i.numbers_eq ▸ List.mem_append_left _ ht, hd⟩
  · rw [defects_eq_nil_iff, ← forall₂_and]
    refine forall₂_congr fun i _ => ?_
    rw [i.numbers_eq, List.forall_mem_append]

/-- A scale that blends a node that is not there has a defect, and none is listed. -/
theorem scale_is_unlisted :
    let t : Tree Single := .ofRoot { mode := .blend [⟨5⟩], default := 1 }
    let i : Instruction := { kind := .setScale { tree := t } }
    let p : Program := ⟨2, [i]⟩
    p.defects = [] ∧ NumberTree.single t ∈ i.numbers ∧ .danglingChild ⟨1⟩ ⟨5⟩ ∈ t.defects := by
  intro t i p
  have here : Tree.Defect.danglingChild ⟨1⟩ ⟨5⟩ ∈ t.indices.flatMap t.localDefects := by decide
  exact ⟨rfl, List.mem_singleton.2 rfl, List.mem_append_left _ here⟩

end Program

end Danmaku
