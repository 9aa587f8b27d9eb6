import Danmaku.Proofs.Unselected

/-! Steps on disjoint selections commute. What a step makes of a selected bullet is decided by the selected bullets,
the selection and the pivot: the others are neither read nor changed. So the steps on one selection come to the same
bullets whether or not those on another one have gone before, and the two leave each other's bullets alone. -/

namespace Danmaku

namespace Sorting

variable {β : Type} {le le' : β → β → Bool} {l : List β}

theorem inOrder_congr (h : ∀ a ∈ l, ∀ b ∈ l, le a b = le' a b) : inOrder le l = inOrder le' l := by
  fun_induction inOrder le l with
  | case1 a b l ih =>
    rw [inOrder, h a List.mem_cons_self b (List.mem_cons_of_mem a List.mem_cons_self)]
    rw [ih fun c hc d hd => h c (List.mem_cons_of_mem a hc) d (List.mem_cons_of_mem a hd)]
  | case2 l hl =>
    match l, hl with
    | [], _ | [_], _ => rfl
    | a :: b :: l, hl => exact (hl a b l rfl).elim

/-- A sort compares members only. -/
theorem sort_congr (h : ∀ a ∈ l, ∀ b ∈ l, le a b = le' a b) : sort le l = sort le' l := by
  have merged : l.mergeSort le = l.mergeSort le' := by
    have mapped := List.map_mergeSort (f := id) h
    rwa [List.map_id, List.map_id] at mapped
  rw [sort, sort, inOrder_congr h, merged]

end Sorting

/-- Whether the step makes a new selection. -/
def Step.chooses {f : Type → Type} : Step f → Bool
  | select _ | selectAll => true
  | _ => false

namespace Formation

/-- The formations have one selection and one pivot, and the same bullets where they are selected. -/
structure SameSelected {α : Type} (f g : Formation α) : Prop where
  selection : g.selection = f.selection
  pivot : g.pivot = f.pivot
  inside : ∀ i ∈ f.selection, g.bullets[i]? = f.bullets[i]?

section

variable {α : Type} {f g : Formation α}

/-- The same changes of the same places keep a bullet the same. -/
theorem getElem?_foldl_modify {ι : Type} (place : ι → Nat) (change : ι → Placement α → Placement α) (js : List ι)
    {a b : Array (Placement α)} {i : Nat} (same : b[i]? = a[i]?) :
    (js.foldl (fun bullets j => bullets.modify (place j) (change j)) b)[i]? =
      (js.foldl (fun bullets j => bullets.modify (place j) (change j)) a)[i]? := by
  induction js generalizing a b with
  | nil => exact same
  | cons j js ih =>
      refine ih ?_
      rw [Array.getElem?_modify, Array.getElem?_modify, same]

theorem SameSelected.update (h : SameSelected f g) (change : Placement α → Placement α) :
    SameSelected (f.update change) (g.update change) where
  selection := h.selection
  pivot := h.pivot
  inside i hi := by
    simp only [Formation.update, h.selection]
    exact getElem?_foldl_modify id (fun _ => change) f.selection (h.inside i hi)

end

section

variable {α : Type} [Scalar α] {f g : Formation α}

theorem SameSelected.read (h : SameSelected f g) (axis : Axis) {i : Nat} (hi : i ∈ f.selection) :
    g.read axis i = f.read axis i := by
  rw [Formation.read, Formation.read, h.inside i hi]

theorem SameSelected.ranked (h : SameSelected f g) (axis : Axis) : g.ranked axis = f.ranked axis := by
  rw [Formation.ranked, Formation.ranked, h.selection]
  refine Sorting.sort_congr fun i hi j hj => ?_
  rw [h.read axis hi, h.read axis hj]

theorem SameSelected.distribute (h : SameSelected f g) (axis : Axis) (gap : α) :
    SameSelected (f.distribute axis gap) (g.distribute axis gap) where
  selection := h.selection
  pivot := h.pivot
  inside i hi := by
    have values : (f.ranked axis).map (g.read axis) = (f.ranked axis).map (f.read axis) :=
      List.map_congr_left fun j hj => h.read axis ((f.perm_ranked axis).mem_iff.1 hj)
    simp only [Formation.distribute, h.ranked axis, values]
    exact getElem?_foldl_modify Prod.fst (fun jk p => p.setCoordinate axis _) _ (h.inside i hi)

end

variable {f g : Formation Single}

theorem SameSelected.center? (h : SameSelected f g) (pivot : Pivot) : g.center? pivot = f.center? pivot := by
  cases pivot with
  | running => exact h.pivot
  | _ => rfl

theorem SameSelected.apply (h : SameSelected f g) {step : Placing} (places : step.places = true) :
    SameSelected (f.apply step) (g.apply step) := by
  cases step with
  | select | selectAll | setPivot => cases places
  | spread axis total =>
      simp only [Formation.apply, Formation.spread, h.selection]
      exact h.distribute axis _
  | space axis gap => exact h.distribute axis gap
  | rotate degrees pivot =>
      simp only [Formation.apply, h.center? pivot]
      exact h.update _
  | scale factor pivot =>
      simp only [Formation.apply, h.center? pivot]
      exact h.update _
  | _ => exact h.update _

theorem SameSelected.foldl {steps : List Placing} (h : SameSelected f g)
    (places : ∀ step ∈ steps, step.places = true) :
    SameSelected (steps.foldl Formation.apply f) (steps.foldl Formation.apply g) := by
  induction steps generalizing f g with
  | nil => exact h
  | cons step steps ih =>
      obtain ⟨first, others⟩ := List.forall_mem_cons.1 places
      exact ih (h.apply first) others

theorem placed_foldl_apply {steps : List Placing} (places : ∀ step ∈ steps, step.places = true) (f : Formation Single) :
    Placed f (steps.foldl apply f) := by
  induction steps generalizing f with
  | nil => exact .refl f
  | cons step steps ih =>
      obtain ⟨first, others⟩ := List.forall_mem_cons.1 places
      exact (placed_apply first).trans (ih others _)

/-- Selects, and takes steps on what is selected. -/
def passage (s : Selection) (steps : List Placing) (f : Formation Single) : Formation Single :=
  steps.foldl apply (f.apply (.select s))

variable {a b : Selection} {s t : List Placing}

/-- A passage leaves all that it does not select. -/
theorem bullet_passage (hs : ∀ step ∈ s, step.places = true) (f : Formation Single) {i : Nat}
    (hi : i ∉ a.among f.bullets.size) : (f.passage a s).bullets[i]? = f.bullets[i]? :=
  (placed_foldl_apply hs (f.apply (.select a))).outside i hi

theorem size_passage (hs : ∀ step ∈ s, step.places = true) (f : Formation Single) :
    (f.passage a s).bullets.size = f.bullets.size := by
  have numbers := congrArg Array.size (placed_foldl_apply hs (f.apply (.select a))).numbers
  rwa [Array.size_map, Array.size_map] at numbers

theorem pivot_passage (hs : ∀ step ∈ s, step.places = true) (f : Formation Single) :
    (f.passage a s).pivot = f.pivot :=
  (placed_foldl_apply hs (f.apply (.select a))).pivot

/-- A passage comes to the same after one that selects nothing of its own. -/
theorem bullet_passage_passage (disjoint : ∀ i ∈ a.among f.bullets.size, i ∉ b.among f.bullets.size)
    (hs : ∀ step ∈ s, step.places = true) (ht : ∀ step ∈ t, step.places = true) {i : Nat}
    (hi : i ∈ a.among f.bullets.size) :
    ((f.passage b t).passage a s).bullets[i]? = (f.passage a s).bullets[i]? := by
  have chosen : SameSelected (f.apply (.select a)) ((f.passage b t).apply (.select a)) := {
    selection := congrArg a.among (size_passage ht f)
    pivot := pivot_passage ht f
    inside := fun j hj => bullet_passage ht f (disjoint j hj) }
  refine (chosen.foldl hs).inside i ?_
  rw [(placed_foldl_apply hs _).selection]
  exact hi

/-- Passages on disjoint selections commute, but for the selection that is left. -/
theorem bullets_passage_comm (disjoint : ∀ i ∈ a.among f.bullets.size, i ∉ b.among f.bullets.size)
    (hs : ∀ step ∈ s, step.places = true) (ht : ∀ step ∈ t, step.places = true) :
    ((f.passage a s).passage b t).bullets = ((f.passage b t).passage a s).bullets := by
  have last {a b : Selection} {s t : List Placing} (hs : ∀ step ∈ s, step.places = true)
      (ht : ∀ step ∈ t, step.places = true) {i : Nat} (hi : i ∉ b.among f.bullets.size) :
      ((f.passage a s).passage b t).bullets[i]? = (f.passage a s).bullets[i]? :=
    bullet_passage ht (f.passage a s) (by rwa [size_passage hs f])
  refine Array.ext_getElem? fun i => ?_
  by_cases ha : i ∈ a.among f.bullets.size
  · rw [last hs ht (disjoint i ha), bullet_passage_passage disjoint hs ht ha]
  · have other : ∀ j ∈ b.among f.bullets.size, j ∉ a.among f.bullets.size := fun j hj hj' => disjoint j hj' hj
    rw [last ht hs ha]
    by_cases hb : i ∈ b.among f.bullets.size
    · exact bullet_passage_passage other ht hs hb
    · rw [last hs ht hb, bullet_passage hs f ha, bullet_passage ht f hb]

/-- A new selection is made from the number of the bullets alone. -/
theorem apply_eq_of_chooses {step : Placing} (chooses : step.chooses = true) (bullets : g.bullets = f.bullets)
    (pivot : g.pivot = f.pivot) : g.apply step = f.apply step := by
  cases step with
  | select | selectAll => simp only [apply, bullets, pivot]
  | _ => cases chooses

/-- Steps on disjoint selections commute: whatever goes before, whatever placing steps are taken on the one and on
the other, and whether the layout ends there or goes on with another selection, the spawns are the same. -/
theorem layOut_comm_of_disjoint (count : Nat) (bullet : AssetId) (before rest : List Placing) (a b : Selection)
    (s t : List Placing) (disjoint : ∀ i ∈ a.among count, i ∉ b.among count)
    (hs : ∀ step ∈ s, step.places = true) (ht : ∀ step ∈ t, step.places = true)
    (hrest : ∀ step ∈ rest.head?, step.chooses = true) :
    layOut count bullet (before ++ (.select a :: s) ++ (.select b :: t) ++ rest) =
      layOut count bullet (before ++ (.select b :: t) ++ (.select a :: s) ++ rest) := by
  let f := afterSteps count bullet before
  have size : f.bullets.size = count := (sound_afterSteps count bullet before).size_bullets
  have bullets : ((f.passage a s).passage b t).bullets = ((f.passage b t).passage a s).bullets :=
    bullets_passage_comm (by rwa [size]) hs ht
  have pivot : ((f.passage a s).passage b t).pivot = ((f.passage b t).passage a s).pivot := by
    rw [pivot_passage ht, pivot_passage hs, pivot_passage hs, pivot_passage ht]
  simp only [layOut, List.foldl_append]
  change (rest.foldl apply ((f.passage a s).passage b t)).finish =
    (rest.foldl apply ((f.passage b t).passage a s)).finish
  cases rest with
  | nil =>
      simp only [List.foldl_nil, finish, bullets]
  | cons step rest =>
      rw [List.foldl_cons, List.foldl_cons, apply_eq_of_chooses (hrest step rfl) bullets pivot]

/-- The even and the odd bullets of a fan, spread out and turned by turns. -/
theorem layOut_comm_of_interleaved :
    let even : Selection := .everyNth 2 0
    let odd : Selection := .everyNth 2 1
    let before : List Placing := [.spread .heading 90, .translateLocal ⟨0, 1⟩, .setPivot ⟨1, 2⟩]
    let s : List Placing := [.spread .x 4, .rotate 30 .running]
    let t : List Placing := [.space .heading 15, .lookAt ⟨0, 3⟩, .scale ⟨-1, 2⟩ .running]
    (∀ i ∈ even.among 6, i ∉ odd.among 6) ∧ (∀ step ∈ s, step.places = true) ∧ (∀ step ∈ t, step.places = true) ∧
    layOut 6 ⟨7⟩ (before ++ (.select even :: s) ++ (.select odd :: t) ++ [.selectAll, .rotate 45 .running]) =
      layOut 6 ⟨7⟩ (before ++ (.select odd :: t) ++ (.select even :: s) ++ [.selectAll, .rotate 45 .running]) := by
  intro even odd before s t
  have disjoint : ∀ i ∈ even.among 6, i ∉ odd.among 6 := by decide
  have hs : ∀ step ∈ s, step.places = true := by simp [s, Step.places]
  have ht : ∀ step ∈ t, step.places = true := by simp [t, Step.places]
  refine ⟨disjoint, hs, ht, layOut_comm_of_disjoint 6 ⟨7⟩ before _ even odd s t disjoint hs ht ?_⟩
  simp [Step.chooses]

end Formation

end Danmaku
