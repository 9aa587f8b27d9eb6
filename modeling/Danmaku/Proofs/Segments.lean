import Danmaku.Curve
import Danmaku.Gradient
import Danmaku.Proofs.TotalOrder

/-! How curves and ramps find the items around a time. They sort their items by the total order of the times and then
search by halves for the first item after the time, by the order of the values. The two orders agree where the first
time is a number, and then an item stands on either side of the time. Behind a time that is no number the search may
still come upon items that are not after the time; where it does not, it ends before the first item. -/

namespace Danmaku

section Parting

variable {β : Type} {p : β → Bool} {l : List β} {n : Nat}

/-- The first `n` items satisfy `p` and the others do not. -/
structure PartedAt (p : β → Bool) (l : List β) (n : Nat) : Prop where
  le : n ≤ l.length
  before : ∀ b ∈ l.take n, p b = true
  after : ∀ b ∈ l.drop n, p b = false

theorem PartedAt.of_before (h : PartedAt p l n) {k : Nat} {b : β} (hk : k < n) (hb : l[k]? = some b) : p b = true :=
  h.before b (List.mem_of_getElem? (List.getElem?_take_of_lt hk ▸ hb))

theorem PartedAt.of_after (h : PartedAt p l n) {k : Nat} {b : β} (hk : n ≤ k) (hb : l[k]? = some b) : p b = false := by
  refine h.after b (List.mem_of_getElem? (i := k - n) ?_)
  rwa [List.getElem?_drop, Nat.add_sub_cancel' hk]

/-- The place at which a list is parted is the one that the search finds. -/
theorem PartedAt.partitionPoint_eq (h : PartedAt p l n) : Search.partitionPoint p l.toArray = n := by
  obtain ⟨-, before, after⟩ := Search.partitionPoint_spec p l.toArray
  rcases Nat.lt_trichotomy (Search.partitionPoint p l.toArray) n with earlier | same | later
  · have hb := List.getElem?_eq_getElem (Nat.lt_of_lt_of_le earlier h.le)
    have fails := after _ (by rwa [List.getElem?_toArray])
    exact absurd ((h.of_before earlier hb).symm.trans fails) nofun
  · exact same
  · obtain ⟨k, place⟩ := Nat.exists_eq_add_of_lt later
    obtain ⟨b, hb, holds⟩ := before (n + k) place
    rw [List.getElem?_toArray] at hb
    exact absurd (holds.symm.trans (h.of_after (Nat.le_add_right n k) hb)) nofun

/-- A list is parted where whatever comes before an item that satisfies `p` does too. -/
theorem partedAt_takeWhile (down : l.Pairwise fun a b => p b = true → p a = true) :
    PartedAt p l (l.takeWhile p).length := by
  induction l with
  | nil => exact ⟨Nat.le_refl _, nofun, nofun⟩
  | cons a l ih =>
      obtain ⟨head, tail⟩ := List.pairwise_cons.1 down
      have rest := ih tail
      cases ha : p a with
      | true =>
          rw [List.takeWhile_cons_of_pos ha]
          refine ⟨Nat.succ_le_succ rest.le, fun b hb => ?_, rest.after⟩
          rcases List.mem_cons.1 hb with rfl | hb
          · exact ha
          · exact rest.before b hb
      | false =>
          rw [List.takeWhile_cons_of_neg (by simp [ha])]
          refine ⟨Nat.zero_le _, nofun, fun b hb => ?_⟩
          rcases List.mem_cons.1 hb with rfl | hb
          · exact ha
          · exact Bool.eq_false_iff.2 fun h => Bool.false_ne_true (ha.symm.trans (head b hb h))

theorem partedAt_partitionPoint (down : l.Pairwise fun a b => p b = true → p a = true) :
    PartedAt p l (Search.partitionPoint p l.toArray) := by
  have parted := partedAt_takeWhile down
  rwa [parted.partitionPoint_eq]

section Order

variable {R : β → β → Prop} {a b : β} (sorted : l.Pairwise R)

include sorted

theorem eq_or_rel_of_head? (head : l.head? = some a) (hb : b ∈ l) : b = a ∨ R a b := by
  obtain ⟨others, rfl⟩ := List.head?_eq_some_iff.1 head
  exact (List.mem_cons.1 hb).imp_right (List.rel_of_pairwise_cons sorted)

theorem eq_or_rel_of_getLast? (getLast : l.getLast? = some a) (hb : b ∈ l) : b = a ∨ R b a := by
  obtain ⟨others, rfl⟩ := List.getLast?_eq_some_iff.1 getLast
  rcases List.mem_append.1 hb with hb | hb
  · exact Or.inr ((List.pairwise_append.1 sorted).2.2 b hb a List.mem_cons_self)
  · exact Or.inl (List.mem_singleton.1 hb)

/-- The item before the place at which a sorted list is parted is the last one that satisfies `p`. -/
theorem PartedAt.eq_or_rel (h : PartedAt p l (n + 1)) (ha : l[n]? = some a) (hb : b ∈ l) (holds : p b = true) :
    b = a ∨ R b a := by
  have taken : l.take (n + 1) = l.take n ++ [a] := by rw [List.take_add_one, ha, Option.toList_some]
  have mem : b ∈ l.take (n + 1) := by
    rw [← List.take_append_drop (n + 1) l] at hb
    refine (List.mem_append.1 hb).resolve_right fun behind => ?_
    exact Bool.false_ne_true ((h.after b behind).symm.trans holds)
  refine eq_or_rel_of_getLast? (sorted.sublist (List.take_sublist (n + 1) l)) ?_ mem
  rw [taken, List.getLast?_concat]

end Order

end Parting

section Search

variable {α β : Type} [Scalar α] {time : β → α} {l : List β} {t : α} {first last : β}

/-- The time is between those of the outer items, which is where the items around it are looked for. -/
structure Inside (time : β → α) (l : List β) (t : α) (first last : β) : Prop where
  head : l.head? = some first
  getLast : l.getLast? = some last
  number : Scalar.isNaN t = false
  after : ¬t ≤ time first
  before : ¬time last ≤ t

/-- The last item is after the time, so the place that the search finds is in the list. -/
theorem Inside.partitionPoint_lt (h : Inside time l t first last) :
    Search.partitionPoint (time · ≤ t) l.toArray < l.length := by
  obtain ⟨le, before, -⟩ := Search.partitionPoint_spec (fun b => decide (time b ≤ t)) l.toArray
  refine Nat.lt_of_le_of_ne le fun all => ?_
  have pos : 0 < l.length := List.length_pos_of_mem (List.mem_of_mem_head? h.head)
  obtain ⟨b, hb, reached⟩ := before (l.length - 1) (by omega)
  rw [List.getElem?_toArray, ← List.getLast?_eq_getElem?, h.getLast, Option.some.injEq] at hb
  exact h.before (hb ▸ of_decide_eq_true reached)

/-- The place has an item before it exactly if the first item is not after the time, or another one where the search
looks is not. -/
theorem Inside.one_le_partitionPoint_iff (h : Inside time l t first last) :
    1 ≤ Search.partitionPoint (time · ≤ t) l.toArray ↔
      time first ≤ t ∨ ∃ k ∈ Search.probes l.length, ∃ b, l[k]? = some b ∧ time b ≤ t := by
  rw [Nat.one_le_iff_ne_zero, ne_eq, Search.partitionPoint_eq_zero_iff]
  simp only [List.getElem?_toArray, List.size_toArray, List.forall_mem_cons, ← List.head?_eq_getElem?, h.head]
  simp [imp_iff_not_or]

/-- Then the item before it is not after the time, the item at it is after the time, and both are in range. -/
theorem Inside.exists_around (h : Inside time l t first last)
    (pos : 1 ≤ Search.partitionPoint (time · ≤ t) l.toArray) :
    ∃ a b, Search.around? l.toArray (Search.partitionPoint (time · ≤ t) l.toArray) = some (a, b) ∧
      l[Search.partitionPoint (time · ≤ t) l.toArray - 1]? = some a ∧
      l[Search.partitionPoint (time · ≤ t) l.toArray]? = some b ∧ time a ≤ t ∧ ¬time b ≤ t := by
  obtain ⟨-, before, after⟩ := Search.partitionPoint_spec (fun b => decide (time b ≤ t)) l.toArray
  obtain ⟨n, place⟩ := Nat.exists_eq_add_of_le' pos
  have lt := h.partitionPoint_lt
  obtain ⟨a, ha, reached⟩ := before n place
  have hb := List.getElem?_eq_getElem lt
  have beyond := after _ (by rwa [List.getElem?_toArray])
  rw [List.getElem?_toArray] at ha
  simp only [place, Nat.add_sub_cancel] at hb beyond ⊢
  refine ⟨a, _, ?_, ha, hb, of_decide_eq_true reached, of_decide_eq_false beyond⟩
  simp only [Search.around?, List.getElem?_toArray, ha, hb]

theorem Curve.evaluate?_of_inside {c : Curve α} {first last : Keyframe α}
    (h : Inside Keyframe.time c.keys t first last) :
    c.evaluate? t = (Search.around? c.keys.toArray (c.reached t)).map fun (a, b) => hermite a b t := by
  simp only [evaluate?, h.head, h.getLast, h.number, if_neg h.after, if_neg h.before, Bool.false_eq_true, if_false]

theorem Curve.evaluate_of_inside {c : Curve α} {first last a b : Keyframe α} {n : Nat}
    (h : Inside Keyframe.time c.keys t first last) (place : c.reached t = n + 1) (before : c.keys[n]? = some a)
    (after : c.keys[n + 1]? = some b) : c.evaluate t = hermite a b t := by
  simp only [evaluate, evaluate?_of_inside h, place, Search.around?, List.getElem?_toArray, before, after,
    Option.map_some, Option.getD_some]

/-- A curve has a value at every time that is not between the outer ones. -/
theorem Curve.exists_inside {c : Curve α} (none : c.evaluate? t = none) :
    ∃ first last, Inside Keyframe.time c.keys t first last := by
  unfold evaluate? at none
  split at none
  · rename_i first last head getLast
    cases number : Scalar.isNaN t with
    | true => simp [number] at none
    | false =>
        by_cases after : t ≤ first.time
        · simp [number, after] at none
        · by_cases before : last.time ≤ t
          · simp [number, after, before] at none
          · exact ⟨first, last, head, getLast, number, after, before⟩
  · cases none

end Search

section Singles

variable {β ν : Type} {time : β → Single} {l : List β} {t : Single} {first last : β}

theorem Inside.le_iff_number (h : Inside time l t first last) : time first ≤ t ↔ (time first).isNaN = false := by
  constructor
  · exact fun le => (Single.isNaN_of_le le).1
  · exact fun number => (Single.le_or_le number h.number).resolve_right h.after

/-- Items whose first time is a number are parted at every time, as what is not after the time is a number and has
only numbers before it. -/
theorem partedAt_of_sorted (sorted : l.Pairwise fun a b => (time a).totalLe (time b) = true)
    (head : l.head? = some first) (number : (time first).isNaN = false) (t : Single) :
    PartedAt (time · ≤ t) l (Search.partitionPoint (time · ≤ t) l.toArray) := by
  obtain ⟨others, rfl⟩ := List.head?_eq_some_iff.1 head
  have least : ∀ a ∈ first :: others, (time first).totalLe (time a) = true := by
    intro a ha
    rcases List.mem_cons.1 ha with rfl | ha
    · exact Single.totalLe_refl _
    · exact List.rel_of_pairwise_cons sorted ha
  refine partedAt_partitionPoint (sorted.imp_of_mem fun {a b} ha _ hab counted => ?_)
  have le : time b ≤ t := of_decide_eq_true counted
  have numberb : (time b).isNaN = false := (Single.isNaN_of_le le).1
  have numbera : (time a).isNaN = false := Single.isNaN_of_between number numberb (least a ha) hab
  exact decide_eq_true (Single.le_trans (Single.le_of_totalLe numbera numberb hab) le)

theorem Ramp.sample?_of_inside {r : Ramp ν} {first last : Stop ν} (mode : GradientMode) (mix : ν → ν → Single → ν)
    (absent : ν) (h : Inside Stop.time r.stops t first last) :
    r.sample? mode mix absent t =
      (Search.around? r.stops.toArray (r.reached t)).map fun (a, b) => between mode mix a b t := by
  simp only [sample?, h.head, h.getLast]
  rw [if_neg h.after, if_neg h.before]

theorem Ramp.exists_inside {r : Ramp ν} {mode : GradientMode} {mix : ν → ν → Single → ν} {absent : ν}
    (number : t.isNaN = false) (none : r.sample? mode mix absent t = none) :
    ∃ first last, Inside Stop.time r.stops t first last := by
  unfold sample? at none
  split at none
  · rename_i first last head getLast
    by_cases after : t ≤ first.time
    · simp [after] at none
    · by_cases before : last.time ≤ t
      · simp [after, before] at none
      · exact ⟨first, last, head, getLast, number, after, before⟩
  · cases none

theorem Gradient.isNaN_clampTime (t : Single) : (clampTime t).isNaN = false := by
  unfold clampTime
  cases number : t.isNaN with
  | true => exact (by decide : (0 : Single).isNaN = false)
  | false => exact (Single.isNaN_of_le (Single.clamp_between number rfl rfl (by decide)).1).2

theorem Gradient.evaluate?_eq_none_iff {g : Gradient} :
    g.evaluate? t = none ↔ g.colors.sample? g.mode Vec3.lerp ⟨1, 1, 1⟩ (clampTime t) = none ∨
      g.alphas.sample? g.mode Single.lerp 1 (clampTime t) = none := by
  unfold evaluate?
  cases g.colors.sample? g.mode Vec3.lerp ⟨1, 1, 1⟩ (clampTime t) <;>
    cases g.alphas.sample? g.mode Single.lerp 1 (clampTime t) <;> simp

variable {γ : Type} {segment : β → β → γ} {value? : Option γ} {n : Nat}

/-- What the search for `t` gives, between the outer times. The place has an item before it exactly if the first time is
a number or the search comes upon a time that is not after `t`, and the place is right for all items if the first time
is a number. With an item before it, the value is that of the items on either side of the time; without one, there is
no value. -/
structure Found (time : β → Single) (l : List β) (t : Single) (n : Nat) (segment : β → β → γ) (value? : Option γ)
    (first : β) : Prop where
  lt : n < l.length
  pos_iff : 1 ≤ n ↔ (time first).isNaN = false ∨ ∃ k ∈ Search.probes l.length, ∃ b, l[k]? = some b ∧ time b ≤ t
  parted : (time first).isNaN = false → PartedAt (time · ≤ t) l n
  around : 1 ≤ n → ∃ a b, l[n - 1]? = some a ∧ l[n]? = some b ∧ time a ≤ t ∧ ¬time b ≤ t ∧ value? = some (segment a b)
  out : n = 0 → value? = none

/-- A value at `t` from a search for `t`, which is needed only between the outer times. -/
structure Searched (time : β → Single) (l : List β) (t : Single) (n : Nat) (segment : β → β → γ)
    (value? : Option γ) : Prop where
  inside : value? = none → ∃ first last, Inside time l t first last
  found : ∀ first last, Inside time l t first last → Found time l t n segment value? first

theorem found_of_inside (sorted : l.Pairwise fun a b => (time a).totalLe (time b) = true)
    (inside : Inside time l t first last) (place : n = Search.partitionPoint (time · ≤ t) l.toArray)
    (gives : value? = (Search.around? l.toArray n).map fun (a, b) => segment a b) :
    Found time l t n segment value? first where
  lt := place ▸ inside.partitionPoint_lt
  pos_iff := by rw [place, inside.one_le_partitionPoint_iff, inside.le_iff_number]
  parted number := place ▸ partedAt_of_sorted sorted inside.head number t
  around pos := by
    obtain ⟨a, b, items, before, at', reached, beyond⟩ := inside.exists_around (place ▸ pos)
    rw [← place] at items before at'
    exact ⟨a, b, before, at', reached, beyond, by rw [gives, items, Option.map_some]⟩
  out none := by rw [gives, none, Search.around?, Option.map_none]

theorem Curve.searched (c : Curve Single) (t : Single) :
    Searched Keyframe.time c.keys t (c.reached t) (hermite · · t) (c.evaluate? t) where
  inside := exists_inside
  found _ _ inside := found_of_inside c.sorted inside rfl (evaluate?_of_inside inside)

theorem Ramp.searched (r : Ramp ν) (mode : GradientMode) (mix : ν → ν → Single → ν) (absent : ν)
    (number : t.isNaN = false) :
    Searched Stop.time r.stops t (r.reached t) (between mode mix · · t) (r.sample? mode mix absent t) where
  inside := exists_inside number
  found _ _ inside := found_of_inside r.sorted inside rfl (sample?_of_inside mode mix absent inside)

/-- A curve has a value at every time outside of the outer ones, and between them exactly if the place that the search
finds has a key before it: if the first time is a number, or the search comes upon a key that is not after the time. The
value is then the cubic through the keys on either side. The same holds of the stops in both ramps of a gradient, which
are sampled at a number, whatever the gradient is evaluated at. -/
theorem segments_in_range (c : Curve Single) (g : Gradient) (t : Single) :
    let u := Gradient.clampTime t
    Searched Keyframe.time c.keys t (c.reached t) (Curve.hermite · · t) (c.evaluate? t) ∧
    u.isNaN = false ∧
    (g.evaluate? t = none ↔ g.colors.sample? g.mode Vec3.lerp ⟨1, 1, 1⟩ u = none ∨
      g.alphas.sample? g.mode Single.lerp 1 u = none) ∧
    Searched Stop.time g.colors.stops u (g.colors.reached u) (Ramp.between g.mode Vec3.lerp · · u)
      (g.colors.sample? g.mode Vec3.lerp ⟨1, 1, 1⟩ u) ∧
    Searched Stop.time g.alphas.stops u (g.alphas.reached u) (Ramp.between g.mode Single.lerp · · u)
      (g.alphas.sample? g.mode Single.lerp 1 u) :=
  have number := Gradient.isNaN_clampTime t
  ⟨c.searched t, number, Gradient.evaluate?_eq_none_iff, g.colors.searched _ _ _ number, g.alphas.searched _ _ _ number⟩

/-- Halfway between two keys, the search finds the latter, also if a key at no time at all is before both. -/
theorem segments_in_range_halfway :
    let start : Keyframe Single := .flat 0 2
    let finish : Keyframe Single := .flat 1 3
    let nowhere : Keyframe Single := .flat (.ofBits 0xffc00000) 5
    let c : Curve Single := .ofKeys [start, finish]
    let d : Curve Single := ⟨[nowhere, start, finish], by decide +kernel⟩
    (Inside Keyframe.time c.keys 0.5 start finish ∧ PartedAt (fun k => k.time ≤ 0.5) c.keys (c.reached 0.5) ∧
      c.evaluate? 0.5 ≠ none) ∧
    Inside Keyframe.time d.keys 0.5 nowhere finish ∧ d.reached 0.5 = 2 ∧ d.evaluate? 0.5 = some 2.5 := by
  intro start finish nowhere c d
  have inside : Inside Keyframe.time c.keys 0.5 start finish :=
    ⟨by decide +kernel, by decide +kernel, by decide +kernel, by decide +kernel, by decide +kernel⟩
  have found := (segments_in_range c default 0.5).1.found _ _ inside
  have number : start.time.isNaN = false := by decide
  have inside' : Inside Keyframe.time d.keys 0.5 nowhere finish :=
    ⟨by decide +kernel, by decide +kernel, by decide +kernel, by decide +kernel, by decide +kernel⟩
  have found' := (segments_in_range d default 0.5).1.found _ _ inside'
  have place : d.reached 0.5 = 2 := by decide +kernel
  obtain ⟨a, b, before, at', -, -, value⟩ := found'.around (by rw [place]; decide)
  refine ⟨⟨inside, found.parted number, ?_⟩, inside', place, ?_⟩
  · obtain ⟨_, _, -, -, -, -, value⟩ := found.around (found.pos_iff.2 (Or.inl number))
    rw [value]
    exact nofun
  · rw [place] at before at'
    obtain rfl : start = a := Option.some.inj ((by decide +kernel : d.keys[1]? = some start).symm.trans before)
    obtain rfl : finish = b := Option.some.inj ((by decide +kernel : d.keys[2]? = some finish).symm.trans at')
    rw [value]
    decide +kernel

/-- With a single key at no time at all, every time is between the outer ones, no key is before the place that the search
finds, and there is no value. -/
theorem nan_key_out_of_range :
    let k : Keyframe Single := .flat .nan 1
    let s : Stop Single := ⟨.nan, 1⟩
    (Inside Keyframe.time (Curve.ofKeys [k]).keys 0.5 k k ∧ (Curve.ofKeys [k]).reached 0.5 = 0 ∧
      (Curve.ofKeys [k]).evaluate? 0.5 = none) ∧
    Inside Stop.time (Ramp.ofStops [s]).stops 0.5 s s ∧ (Ramp.ofStops [s]).reached 0.5 = 0 ∧
      Gradient.evaluate? ⟨.ofStops [], .ofStops [s], .blend⟩ 0.5 = none := by
  refine ⟨⟨⟨?_, ?_, ?_, ?_, ?_⟩, ?_, ?_⟩, ⟨?_, ?_, ?_, ?_, ?_⟩, ?_, ?_⟩
  all_goals decide +kernel

end Singles

end Danmaku
