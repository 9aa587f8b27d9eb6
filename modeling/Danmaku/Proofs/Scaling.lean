import Mathlib.Algebra.Group.ModEq
import Mathlib.Algebra.Order.Field.Rat
import Mathlib.Tactic.NormNum
import Mathlib.Tactic.Ring
import Danmaku.Proofs.Unselected

/-! Scales one after the other. A negative factor mirrors: along `x` it exchanges the sides of a heading, along `y` its
ends. Each exchange undoes itself, and the two commute up to a full turn. So when nothing is rounded, two scales around
one center come to the scale by the product of their factors, and a mirror that is used twice to none. -/

namespace Danmaku

namespace Heading

variable {h h' : Rat} {sides sides' ends ends' : Bool} {s t : Vec2 Rat}

/-- Left and right are exchanged, or not. -/
def swapSides (sides : Bool) (h : Rat) : Rat := if sides then -h else h

/-- Front and back are exchanged, or not. -/
def swapEnds (ends : Bool) (h : Rat) : Rat := if ends then 180 - h else h

theorem mirrored_eq (h : Rat) (s : Vec2 Rat) :
    mirrored h s = swapEnds (decide (s.y < 0)) (swapSides (decide (s.x < 0)) h) := by
  by_cases x : s.x < 0
  · by_cases y : s.y < 0
    · have about : h + 180 = 180 - -h := by ring
      simp only [mirrored, swapEnds, swapSides, x, y, if_true, decide_true]
      exact about
    · simp only [mirrored, swapEnds, swapSides, x, y, if_true, if_false, decide_true, decide_false, Bool.false_eq_true]
  · by_cases y : s.y < 0
    · simp only [mirrored, swapEnds, swapSides, x, y, if_true, if_false, decide_true, decide_false, Bool.false_eq_true]
    · simp only [mirrored, swapEnds, swapSides, x, y, if_false, decide_false, Bool.false_eq_true]

theorem swapSides_swapSides (h : Rat) : swapSides sides' (swapSides sides h) = swapSides (sides ^^ sides') h := by
  cases sides <;> cases sides' <;> simp [swapSides]

theorem swapEnds_swapEnds (h : Rat) : swapEnds ends' (swapEnds ends h) = swapEnds (ends ^^ ends') h := by
  cases ends <;> cases ends' <;> simp [swapEnds]

/-- The order of the two makes a full turn at most. -/
theorem swapSides_swapEnds (h : Rat) :
    swapSides sides (swapEnds ends h) ≡ swapEnds ends (swapSides sides h) [PMOD 360] := by
  cases sides with
  | false => exact AddCommGroup.modEq_rfl
  | true =>
      cases ends with
      | false => exact AddCommGroup.modEq_rfl
      | true =>
          refine AddCommGroup.modEq_iff_eq_add_zsmul.2 ⟨1, ?_⟩
          simp only [swapSides, swapEnds, if_true, one_zsmul]
          ring

theorem swapSides_congr (same : h ≡ h' [PMOD 360]) : swapSides sides h ≡ swapSides sides h' [PMOD 360] := by
  cases sides with
  | false => exact same
  | true => exact same.neg

theorem swapEnds_congr (same : h ≡ h' [PMOD 360]) : swapEnds ends h ≡ swapEnds ends h' [PMOD 360] := by
  cases ends with
  | false => exact same
  | true => exact same.sub_left 180

theorem mirrored_congr (same : h ≡ h' [PMOD 360]) (s : Vec2 Rat) : mirrored h s ≡ mirrored h' s [PMOD 360] := by
  rw [mirrored_eq, mirrored_eq]
  exact swapEnds_congr (swapSides_congr same)

/-- A product mirrors if one of its factors does. -/
theorem mul_neg_eq_xor {x y : Rat} (hx : x ≠ 0) (hy : y ≠ 0) :
    decide (x * y < 0) = (decide (x < 0) ^^ decide (y < 0)) := by
  rcases lt_or_gt_of_ne hx with nx | px
  · rcases lt_or_gt_of_ne hy with ny | py
    · simp [nx, ny, (mul_pos_of_neg_of_neg nx ny).not_gt]
    · simp [nx, py.not_gt, mul_neg_of_neg_of_pos nx py]
  · rcases lt_or_gt_of_ne hy with ny | py
    · simp [px.not_gt, ny, mul_neg_of_pos_of_neg px ny]
    · simp [px.not_gt, py.not_gt, (mul_pos px py).not_gt]

/-- Mirrors one after the other are the mirror of the product. -/
theorem mirrored_mirrored (hs : s.x ≠ 0 ∧ s.y ≠ 0) (ht : t.x ≠ 0 ∧ t.y ≠ 0) (h : Rat) :
    mirrored (mirrored h s) t ≡ mirrored h (s * t) [PMOD 360] := by
  have x : decide ((s * t).x < 0) = (decide (s.x < 0) ^^ decide (t.x < 0)) := mul_neg_eq_xor hs.1 ht.1
  have y : decide ((s * t).y < 0) = (decide (s.y < 0) ^^ decide (t.y < 0)) := mul_neg_eq_xor hs.2 ht.2
  rw [mirrored_eq h (s * t), x, y, ← swapEnds_swapEnds, ← swapSides_swapSides, mirrored_eq _ t, mirrored_eq h s]
  exact swapEnds_congr (swapSides_swapEnds _)

theorem mirrored_of_pos (hx : 0 < s.x) (hy : 0 < s.y) (h : Rat) : mirrored h s = h := by
  rw [mirrored_eq, decide_eq_false hx.not_gt, decide_eq_false hy.not_gt]
  rfl

end Heading

namespace Placement

/-- What a scale makes of a bullet. -/
def scaled {α : Type} [Scalar α] (factor center : Vec2 α) (p : Placement α) : Placement α :=
  { p with position := center + (p.position - center) * factor, heading := Heading.mirrored p.heading factor }

/-- The same bullet at the same position, turned the same way up to full turns. -/
structure Congruent (p q : Placement Rat) : Prop where
  position : p.position = q.position
  heading : p.heading ≡ q.heading [PMOD 360]
  bullet : p.bullet = q.bullet
  index : p.index = q.index

namespace Congruent

variable {p q r : Placement Rat}

theorem refl (p : Placement Rat) : Congruent p p := ⟨rfl, AddCommGroup.modEq_rfl, rfl, rfl⟩

theorem symm (h : Congruent p q) : Congruent q p := ⟨h.position.symm, h.heading.symm, h.bullet.symm, h.index.symm⟩

theorem trans (h : Congruent p q) (h' : Congruent q r) : Congruent p r where
  position := h.position.trans h'.position
  heading := h.heading.trans h'.heading
  bullet := h.bullet.trans h'.bullet
  index := h.index.trans h'.index

theorem scaled (h : Congruent p q) (s c : Vec2 Rat) : Congruent (p.scaled s c) (q.scaled s c) where
  position := by rw [Placement.scaled, Placement.scaled, h.position]
  heading := Heading.mirrored_congr h.heading s
  bullet := h.bullet
  index := h.index

theorem iterate (h : Congruent p q) (s c : Vec2 Rat) (n : Nat) :
    Congruent ((Placement.scaled s c)^[n] p) ((Placement.scaled s c)^[n] q) := by
  induction n generalizing p q with
  | zero => exact h
  | succ n ih => exact ih (h.scaled s c)

end Congruent

variable {s t c : Vec2 Rat}

theorem scaled_scaled (hs : s.x ≠ 0 ∧ s.y ≠ 0) (ht : t.x ≠ 0 ∧ t.y ≠ 0) (p : Placement Rat) :
    Congruent ((p.scaled s c).scaled t c) (p.scaled (s * t) c) where
  position := by
    have along (c x s t : Rat) : c + (c + (x - c) * s - c) * t = c + (x - c) * (s * t) := by ring
    exact congrArg₂ Vec2.mk (along c.x p.position.x s.x t.x) (along c.y p.position.y s.y t.y)
  heading := Heading.mirrored_mirrored hs ht p.heading
  bullet := rfl
  index := rfl

theorem scaled_comm (hs : s.x ≠ 0 ∧ s.y ≠ 0) (ht : t.x ≠ 0 ∧ t.y ≠ 0) (p : Placement Rat) :
    Congruent ((p.scaled s c).scaled t c) ((p.scaled t c).scaled s c) := by
  have product : s * t = t * s := congrArg₂ Vec2.mk (mul_comm s.x t.x) (mul_comm s.y t.y)
  have first := scaled_scaled (c := c) hs ht p
  rw [product] at first
  exact first.trans (scaled_scaled ht hs p).symm

theorem scaled_iterate (hs : s.x ≠ 0 ∧ s.y ≠ 0) (ht : t.x ≠ 0 ∧ t.y ≠ 0) (n : Nat) (p : Placement Rat) :
    Congruent (((scaled s c)^[n] p).scaled t c) ((scaled s c)^[n] (p.scaled t c)) := by
  induction n generalizing p with
  | zero => exact .refl _
  | succ n ih => exact (ih (p.scaled s c)).trans ((scaled_comm hs ht p).iterate s c n)

/-- All scales by one factor can be taken before all those by the other. -/
theorem iterate_scaled (hs : s.x ≠ 0 ∧ s.y ≠ 0) (ht : t.x ≠ 0 ∧ t.y ≠ 0) (n : Nat) (p : Placement Rat) :
    Congruent ((scaled t c)^[n] ((scaled s c)^[n] p)) ((scaled (s * t) c)^[n] p) := by
  induction n generalizing p with
  | zero => exact .refl _
  | succ n ih =>
      have moved : Congruent (((scaled s c)^[n] (p.scaled s c)).scaled t c)
          ((scaled s c)^[n] ((p.scaled s c).scaled t c)) := scaled_iterate hs ht n _
      have joined : Congruent ((p.scaled s c).scaled t c) (p.scaled (s * t) c) := scaled_scaled hs ht p
      exact (moved.iterate t c n).trans ((ih _).trans (joined.iterate (s * t) c n))

theorem heading_iterate_of_pos (hx : 0 < s.x) (hy : 0 < s.y) (n : Nat) (p : Placement Rat) :
    ((scaled s c)^[n] p).heading = p.heading := by
  induction n generalizing p with
  | zero => rfl
  | succ n ih => exact (ih (p.scaled s c)).trans (Heading.mirrored_of_pos hx hy p.heading)

end Placement

namespace Formation

section

variable {α : Type}

/-- A bullet is changed as often as it is selected. -/
theorem getElem?_foldl_modify_count (change : Placement α → Placement α) (is : List Nat)
    (bullets : Array (Placement α)) (i : Nat) :
    (is.foldl (fun bullets j => bullets.modify j change) bullets)[i]? = bullets[i]?.map change^[is.count i] := by
  induction is generalizing bullets with
  | nil => exact Option.map_id_apply.symm
  | cons j is ih =>
      rw [List.foldl_cons, ih, Array.getElem?_modify]
      by_cases same : j = i
      · rw [if_pos same, same, List.count_cons_self, Option.map_map]
        rfl
      · rw [if_neg same, List.count_cons_of_ne same]

end

theorem getElem?_scale (f : Formation Rat) (s c : Vec2 Rat) (i : Nat) :
    (f.scale s c).bullets[i]? = f.bullets[i]?.map (Placement.scaled s c)^[f.selection.count i] :=
  getElem?_foldl_modify_count _ f.selection f.bullets i

theorem placed_scale (f : Formation Rat) (s c : Vec2 Rat) : Placed f (f.scale s c) := placed_update fun _ => rfl

variable {f : Formation Rat} {c s t : Vec2 Rat} {i : Nat} {p q : Placement Rat}

theorem congruent_scale_scale (hs : s.x ≠ 0 ∧ s.y ≠ 0) (ht : t.x ≠ 0 ∧ t.y ≠ 0)
    (twice : ((f.scale s c).scale t c).bullets[i]? = some p) (once : (f.scale (s * t) c).bullets[i]? = some q) :
    p.Congruent q := by
  have selection : (f.scale s c).selection = f.selection := rfl
  rw [getElem?_scale, getElem?_scale, selection, Option.map_map] at twice
  rw [getElem?_scale] at once
  obtain ⟨start, here, rfl⟩ := Option.map_eq_some_iff.1 twice
  obtain ⟨start', here', rfl⟩ := Option.map_eq_some_iff.1 once
  obtain rfl := Option.some.inj (here.symm.trans here')
  exact Placement.iterate_scaled hs ht _ start

/-- Positive factors leave all headings as they are. -/
theorem heading_scale_of_pos (hx : 0 < s.x) (hy : 0 < s.y) (scaled : (f.scale s c).bullets[i]? = some p)
    (here : f.bullets[i]? = some q) : p.heading = q.heading := by
  rw [getElem?_scale, here] at scaled
  obtain rfl := Option.some.inj scaled
  exact Placement.heading_iterate_of_pos hx hy _ q

theorem scale_one (f : Formation Rat) (c : Vec2 Rat) : (f.scale ⟨1, 1⟩ c).bullets = f.bullets := by
  have neutral : Placement.scaled ⟨1, 1⟩ c = id := by
    funext p
    have along (c x : Rat) : c + (x - c) * 1 = x := by ring
    have position : c + (p.position - c) * ⟨1, 1⟩ = p.position :=
      congrArg₂ Vec2.mk (along c.x p.position.x) (along c.y p.position.y)
    rw [Placement.scaled, position, Heading.mirrored_of_pos one_pos one_pos]
    rfl
  refine Array.ext_getElem? fun i => ?_
  rw [getElem?_scale, neutral, Function.iterate_id, Option.map_id_fun, id]

/-- When nothing is rounded, a scale by `s` and then one by `t` around the same center, which the pivot stays if it is the
center, make of every selected bullet what the scale by the product does: the same position, and the same heading up to
full turns. None of the factors may be zero. So a scale that is taken twice restores all headings up to full turns, and
a mirror, with factors of `1` and `-1` only, the positions too. -/
theorem scale_composes (f : Formation Rat) (c s t : Vec2 Rat) (hs : s.x ≠ 0 ∧ s.y ≠ 0) (ht : t.x ≠ 0 ∧ t.y ≠ 0) :
    let twice := (f.scale s c).scale t c
    let once := f.scale (s * t) c
    (f.scale s c).pivot = f.pivot ∧ twice.pivot = once.pivot ∧ twice.selection = once.selection ∧
    twice.bullets.size = once.bullets.size ∧
    (∀ (i : Nat) (p q : Placement Rat), twice.bullets[i]? = some p → once.bullets[i]? = some q →
      p.position = q.position ∧ p.heading ≡ q.heading [PMOD 360] ∧ p.bullet = q.bullet ∧ p.index = q.index) ∧
    ∀ (i : Nat) (p q : Placement Rat), ((f.scale s c).scale s c).bullets[i]? = some p → f.bullets[i]? = some q →
      p.heading ≡ q.heading [PMOD 360] ∧ (s * s = ⟨1, 1⟩ → p.position = q.position) := by
  intro twice once
  have placed : Placed f twice := (placed_scale f s c).trans (placed_scale _ t c)
  have size : twice.bullets.size = once.bullets.size := by
    have numbers := congrArg Array.size (placed.numbers.trans (placed_scale f (s * t) c).numbers.symm)
    rwa [Array.size_map, Array.size_map] at numbers
  refine ⟨rfl, rfl, rfl, size, fun i p q hp hq => ?_, fun i p q hp hq => ?_⟩
  · have same : p.Congruent q := congruent_scale_scale hs ht hp hq
    exact ⟨same.position, same.heading, same.bullet, same.index⟩
  · -- The square mirrors nothing.
    have square : (f.scale (s * s) c).bullets[i]? = some ((Placement.scaled (s * s) c)^[f.selection.count i] q) := by
      rw [getElem?_scale, hq]
      rfl
    have same : p.Congruent _ := congruent_scale_scale hs hs hp square
    refine ⟨?_, fun mirror => ?_⟩
    · rw [← heading_scale_of_pos (mul_self_pos.2 hs.1) (mul_self_pos.2 hs.2) square hq]
      exact same.heading
    · rw [mirror, scale_one, hq] at square
      rw [same.position, mirror, ← Option.some.inj square]

/-- Two of three bullets, of which the ends and then the sides are exchanged around the running pivot. -/
theorem scale_composes_around_pivot :
    let at' (x y heading : Rat) (i : Nat) : Placement Rat := ⟨⟨x, y⟩, heading, ⟨7⟩, i⟩
    let f : Formation Rat := ⟨#[at' 3 1 30 0, at' 0 2 200 1, at' (-1) 5 270 2], [0, 2], ⟨1, 2⟩⟩
    let s : Vec2 Rat := ⟨2, -1⟩
    let t : Vec2 Rat := ⟨-3, 1 / 2⟩
    (s.x ≠ 0 ∧ s.y ≠ 0) ∧ (t.x ≠ 0 ∧ t.y ≠ 0) ∧
    ((f.scale s f.pivot).scale t f.pivot).bullets[0]? = some (at' (-11) (5 / 2) (-150) 0) ∧
    (f.scale (s * t) f.pivot).bullets[0]? = some (at' (-11) (5 / 2) 210 0) ∧ (-150 : Rat) ≡ 210 [PMOD 360] := by
  intro at' f s t
  have hs : s.x ≠ 0 ∧ s.y ≠ 0 := by decide
  have ht : t.x ≠ 0 ∧ t.y ≠ 0 := by decide +kernel
  have twice : ((f.scale s f.pivot).scale t f.pivot).bullets[0]? = some (at' (-11) (5 / 2) (-150) 0) := by
    decide +kernel
  have once : (f.scale (s * t) f.pivot).bullets[0]? = some (at' (-11) (5 / 2) 210 0) := by decide +kernel
  obtain ⟨-, -, -, -, same, -⟩ := scale_composes f f.pivot s t hs ht
  exact ⟨hs, ht, twice, once, (same 0 _ _ twice once).2.1⟩

end Formation

end Danmaku
