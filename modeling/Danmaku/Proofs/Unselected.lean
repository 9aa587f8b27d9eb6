import Danmaku.Shot

/-! What a layout leaves as it is. The steps of a layout share the bullets, a selection that stays from step to step
and a pivot. The selection is always an ascending list of positions of bullets, and a step that places bullets
changes the selected ones, one position after the other, and no more than them. So a bullet that is never selected
when bullets are placed ends where it started. -/

namespace Danmaku

/-- Whether the step changes bullets. The others choose bullets or set the pivot. -/
def Step.places {f : Type → Type} : Step f → Bool
  | select _ | selectAll | setPivot _ => false
  | _ => true

/-- The step changes nothing but the bullets that are selected, and none of their numbers. -/
structure Formation.Placed {α : Type} (f g : Formation α) : Prop where
  selection : g.selection = f.selection
  pivot : g.pivot = f.pivot
  numbers : g.bullets.map (·.index) = f.bullets.map (·.index)
  outside : ∀ i, i ∉ f.selection → g.bullets[i]? = f.bullets[i]?

namespace Formation

section

variable {α : Type} {f : Formation α} {change : Placement α → Placement α}

theorem Placed.refl (f : Formation α) : Placed f f := ⟨rfl, rfl, rfl, fun _ _ => rfl⟩

theorem Placed.trans {g h : Formation α} (hg : Placed f g) (hh : Placed g h) : Placed f h where
  selection := hh.selection.trans hg.selection
  pivot := hh.pivot.trans hg.pivot
  numbers := hh.numbers.trans hg.numbers
  outside i hi := (hh.outside i (hg.selection ▸ hi)).trans (hg.outside i hi)

theorem placed_modify {i : Nat} (selected : i ∈ f.selection) (number : ∀ p, (change p).index = p.index) :
    Placed f { f with bullets := f.bullets.modify i change } where
  selection := rfl
  pivot := rfl
  numbers := by
    refine Array.ext (by simp) fun j _ _ => ?_
    simp only [Array.getElem_map, Array.getElem_modify]
    split
    · exact number _
    · rfl
  outside j hj := by
    have other : i ≠ j := fun same => hj (same ▸ selected)
    rw [Array.getElem?_modify, if_neg other]

/-- One selected position after the other. -/
theorem placed_foldl {ι : Type} (place : ι → Nat) (change : ι → Placement α → Placement α)
    (number : ∀ j p, (change j p).index = p.index) (js : List ι) (f : Formation α)
    (selected : ∀ j ∈ js, place j ∈ f.selection) :
    Placed f { f with bullets := js.foldl (fun bullets j => bullets.modify (place j) (change j)) f.bullets } := by
  induction js generalizing f with
  | nil => exact .refl f
  | cons j js ih =>
      obtain ⟨first, others⟩ := List.forall_mem_cons.1 selected
      exact (placed_modify first (number j)).trans (ih _ others)

theorem placed_update (number : ∀ p, (change p).index = p.index) : Placed f (f.update change) :=
  placed_foldl id (fun _ => change) (fun _ => number) f.selection f fun _ hi => hi

/-- All that a run of steps relies on: the bullets are numbered by their positions, and the selection is an ascending
list of positions. -/
structure Sound (count : Nat) (f : Formation α) : Prop where
  numbers : f.bullets.map (·.index) = Array.range count
  ascending : f.selection.Pairwise (· < ·)
  below : ∀ i ∈ f.selection, i < count

theorem Sound.size_bullets {count : Nat} (h : f.Sound count) : f.bullets.size = count := by
  rw [← Array.size_map (f := (·.index)), h.numbers, Array.size_range]

theorem Sound.of_placed {count : Nat} {g : Formation α} (h : f.Sound count) (hg : Placed f g) : g.Sound count where
  numbers := hg.numbers.trans h.numbers
  ascending := hg.selection ▸ h.ascending
  below := hg.selection ▸ h.below

end

variable {α : Type} [Scalar α]

theorem perm_ranked (f : Formation α) (axis : Axis) : (f.ranked axis).Perm f.selection := Sorting.perm_sort _ _

theorem placed_distribute (f : Formation α) (axis : Axis) (gap : α) : Placed f (f.distribute axis gap) := by
  refine placed_foldl Prod.fst (fun jk p => p.setCoordinate axis _) (fun _ p => ?_) _ f fun jk hi => ?_
  · cases axis <;> rfl
  · exact (f.perm_ranked axis).mem_iff.1 (List.fst_mem_of_mem_zipIdx hi)

theorem placed_apply {f : Formation Single} {step : Placing} (places : step.places = true) :
    Placed f (f.apply step) := by
  cases step with
  | select | selectAll | setPivot => cases places
  | spread axis total => exact placed_distribute f axis _
  | space axis gap => exact placed_distribute f axis gap
  | _ => exact placed_update fun _ => rfl

theorem sound_start (count : Nat) (bullet : AssetId) : (start count bullet : Formation α).Sound count where
  numbers := Array.ext (by simp [start]) fun i _ _ => by simp [start]
  ascending := List.pairwise_lt_range
  below _ hi := List.mem_range.1 hi

theorem Sound.apply {count : Nat} {f : Formation Single} (h : f.Sound count) (step : Placing) :
    (f.apply step).Sound count := by
  cases places : step.places with
  | true => exact h.of_placed (placed_apply places)
  | false =>
      cases step with
      | select s =>
          refine ⟨h.numbers, s.pairwise_among _, fun i hi => ?_⟩
          exact h.size_bullets ▸ (Selection.mem_among.1 hi).1
      | selectAll =>
          refine ⟨h.numbers, List.pairwise_lt_range, fun i hi => ?_⟩
          exact h.size_bullets ▸ List.mem_range.1 hi
      | setPivot p => exact ⟨h.numbers, h.ascending, h.below⟩
      | _ => cases places

/-- A step that chooses bullets or sets the pivot leaves them as they are. -/
theorem bullets_apply {f : Formation Single} {step : Placing} (chooses : step.places = false) :
    (f.apply step).bullets = f.bullets := by
  cases step with
  | select | selectAll | setPivot => rfl
  | _ => cases chooses

theorem bullet_apply {f : Formation Single} {step : Placing} {i : Nat}
    (unselected : step.places = true → i ∉ f.selection) : (f.apply step).bullets[i]? = f.bullets[i]? := by
  cases places : step.places with
  | true => exact (placed_apply places).outside i (unselected places)
  | false => rw [bullets_apply places]

/-- A layout after some of its steps. -/
def afterSteps (count : Nat) (bullet : AssetId) (steps : List Placing) : Formation Single :=
  steps.foldl apply (start count bullet)

variable {count : Nat} {bullet : AssetId} {steps : List Placing}

theorem afterSteps_take_succ {k : Nat} {step : Placing} (h : steps[k]? = some step) :
    afterSteps count bullet (steps.take (k + 1)) = (afterSteps count bullet (steps.take k)).apply step := by
  rw [afterSteps, List.take_add_one, h, List.foldl_append]
  rfl

theorem sound_afterSteps (count : Nat) (bullet : AssetId) (steps : List Placing) :
    (afterSteps count bullet steps).Sound count := by
  rw [afterSteps]
  generalize hf : (start count bullet : Formation Single) = f
  have h : f.Sound count := hf ▸ sound_start count bullet
  clear hf
  induction steps generalizing f with
  | nil => exact h
  | cons step steps ih => exact ih _ (h.apply step)

/-- A bullet that no step places is as at the start. -/
theorem bullet_afterSteps {i : Nat} (unselected : ∀ k step, steps[k]? = some step → step.places = true →
      i ∉ (afterSteps count bullet (steps.take k)).selection) (n : Nat) (hn : n ≤ steps.length) :
    (afterSteps count bullet (steps.take n)).bullets[i]? = (start count bullet : Formation Single).bullets[i]? := by
  induction n with
  | zero => rfl
  | succ n ih =>
      have here : steps[n]? = some steps[n] := List.getElem?_eq_getElem hn
      rw [afterSteps_take_succ here, bullet_apply (unselected n _ here), ih (Nat.le_of_lt hn)]

theorem length_finish (f : Formation Single) : f.finish.length = f.bullets.size := by
  rw [finish, List.length_map, Array.length_toList]

/-- A bullet as it is when the layout is done. -/
theorem exists_spawn {f : Formation Single} {i : Nat} {p : Placement Single} (h : f.bullets[i]? = some p) :
    ∃ s : Spawn, f.finish[i]? = some s ∧ s.position = p.position ∧ s.heading = Heading.normalize p.heading ∧
      s.bullet = p.bullet ∧ s.index = p.index := by
  rw [finish, List.getElem?_map, Array.getElem?_toList, h]
  exact ⟨_, rfl, rfl, rfl, rfl, rfl⟩

/-- The spawns are numbered by their positions. -/
theorem Sound.index_eq {count : Nat} {f : Formation Single} (h : f.Sound count) {i : Nat} {s : Spawn}
    (hs : f.finish[i]? = some s) : s.index = i := by
  have hi : i < f.bullets.size := f.length_finish ▸ (List.getElem?_eq_some_iff.1 hs).1
  obtain ⟨s', hs', -, -, -, number⟩ := exists_spawn (Array.getElem?_eq_getElem hi)
  obtain rfl := Option.some.inj (hs'.symm.trans hs)
  have same : (f.bullets.map (·.index))[i]? = (Array.range count)[i]? := congrArg (·[i]?) h.numbers
  rw [Array.getElem?_map, Array.getElem?_eq_getElem hi, Array.getElem?_range,
    if_pos (h.size_bullets ▸ hi)] at same
  exact number.trans (Option.some.inj same)

theorem normalize_zero : Heading.normalize 0 = 0 := by decide

/-- A layout gives as many spawns as it was asked for, numbered by their positions. After any number of its steps the
selection is an ascending list of positions below the count, and so is what a step along an axis goes through in
another order. A step that selects or sets the pivot leaves all bullets as they are, any other those outside the
selection. So a spawn that was not selected at any of these is at the origin, faces forward and has the bullet of
the shot. -/
theorem layOut_keeps_unselected (count : Nat) (bullet : AssetId) (steps : List Placing) :
    let spawns := layOut count bullet steps
    let reached (k : Nat) := afterSteps count bullet (steps.take k)
    spawns.length = count ∧ (∀ (i : Nat) (s : Spawn), spawns[i]? = some s → s.index = i) ∧
    (∀ k, (reached k).bullets.size = count ∧ (reached k).selection.Pairwise (· < ·) ∧
      (∀ i ∈ (reached k).selection, i < count) ∧
      ∀ axis, ((reached k).ranked axis).Perm (reached k).selection) ∧
    (∀ k step, steps[k]? = some step → reached (k + 1) = (reached k).apply step ∧
      (step.places = false → (reached (k + 1)).bullets = (reached k).bullets) ∧
      ∀ i, i ∉ (reached k).selection → (reached (k + 1)).bullets[i]? = (reached k).bullets[i]?) ∧
    ∀ i, i < count →
      (∀ k step, steps[k]? = some step → step.places = true → i ∉ (reached k).selection) →
      ∃ s : Spawn, spawns[i]? = some s ∧ s.position = ⟨0, 0⟩ ∧ s.heading = 0 ∧ s.bullet = bullet := by
  intro spawns reached
  have sound (k : Nat) : (reached k).Sound count := sound_afterSteps count bullet _
  refine ⟨?_, fun i s hs => ?_, fun k => ?_, fun k step here => ?_, fun i hi unselected => ?_⟩
  · change (afterSteps count bullet steps).finish.length = count
    rw [length_finish, (sound_afterSteps count bullet steps).size_bullets]
  · exact (sound_afterSteps count bullet steps).index_eq hs
  · exact ⟨(sound k).size_bullets, (sound k).ascending, (sound k).below, (reached k).perm_ranked⟩
  · have next : reached (k + 1) = (reached k).apply step := afterSteps_take_succ here
    refine ⟨next, fun chooses => ?_, fun i hi => ?_⟩
    · rw [next]
      exact bullets_apply chooses
    · rw [next]
      exact bullet_apply fun _ => hi
  · have kept := bullet_afterSteps unselected steps.length (Nat.le_refl _)
    rw [List.take_length] at kept
    have started : (start count bullet : Formation Single).bullets[i]? =
        some { position := .zero, heading := 0, bullet, index := i } := by
      simp [start, hi]
    obtain ⟨s, hs, position, heading, same, -⟩ := exists_spawn (kept.trans started)
    exact ⟨s, hs, position, heading.trans normalize_zero, same⟩

end Formation

namespace Shot

theorem drawCount_le (shot : Shot) (view : Viewpoint) (s : Stage) : (shot.drawCount view s).1 ≤ maxBullets := by
  cases drawn : shot.count.draw view .shot s with
  | mk requested s' =>
      have capped : (shot.drawCount view s).1 = min maxBullets requested.toInt.toNat := by
        simp only [drawCount, bind, StateT.bind, drawn]
        split <;> rfl
      rw [capped]
      exact Nat.min_le_left _ _

/-- The number of a bullet is below the most bullets of a shot, so that it fits 32 bits. -/
theorem index_lt (shot : Shot) (view : Viewpoint) (s : Stage) {spawn : Spawn}
    (h : spawn ∈ (shot.draw view s).1.spawns) : spawn.index < maxBullets := by
  obtain ⟨count, bullet, steps, le, spawns⟩ : ∃ count bullet steps, count ≤ maxBullets ∧
      (shot.draw view s).1.spawns = Formation.layOut count bullet steps :=
    ⟨_, _, _, shot.drawCount_le view s, rfl⟩
  rw [spawns] at h
  obtain ⟨i, hi, rfl⟩ := List.getElem_of_mem h
  have sound := Formation.sound_afterSteps count bullet steps
  have number := sound.index_eq (List.getElem?_eq_getElem hi)
  have below : i < (Formation.afterSteps count bullet steps).finish.length := hi
  rw [Formation.length_finish, sound.size_bullets] at below
  rw [number]
  exact Nat.lt_of_lt_of_le below le

end Shot

end Danmaku
