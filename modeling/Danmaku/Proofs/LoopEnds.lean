import Mathlib.Data.Nat.Find
import Mathlib.Order.Bounds.Basic
import Danmaku.Proofs.Brackets

/-! Where the loop that begins at a position ends: at the first place where, from there on, the ends are one more than
the begins. The way past the loop counts the loops that are open inside of it. This count is the begins less the ends
as long as it runs, so an end never finds it at zero before the loop itself is over, and what it passed by then is
properly bracketed. Without such a place the loop has no end, and the way past it leads to the end of the list. -/

namespace Danmaku.Program

/-- The ends of loops less the begins. -/
def excess (xs : List Instruction) : Int := (xs.countP Instruction.closes : Int) - xs.countP Instruction.opens

/-- Each begin of a loop has its end after it, and each end its begin before it. -/
inductive Bracketed : List Instruction → Prop where
  | nil : Bracketed []
  | plain {i : Instruction} {is : List Instruction} (opens : i.opens = false) (closes : i.closes = false)
      (rest : Bracketed is) : Bracketed (i :: is)
  | loop {first last : Instruction} {body is : List Instruction} (opens : first.opens = true)
      (closes : last.closes = true) (inside : Bracketed body) (rest : Bracketed is) :
      Bracketed (first :: body ++ last :: is)

/-- The instructions between two positions, without those at them. -/
def between (p : Program) (begin stop : Nat) : List Instruction :=
  (p.instructions.drop (begin + 1)).take (stop - (begin + 1))

/-- From after `begin` up to and with `j`, the ends are one more than the begins. -/
def EndsAt (p : Program) (begin j : Nat) : Prop := begin < j ∧ j < p.length ∧ excess (p.between begin (j + 1)) = 1

variable {p : Program} {i : Instruction} {depth depth' n : Nat} {xs ys : List Instruction}

/-! The excess of a stretch. -/

theorem excess_append (xs ys : List Instruction) : excess (xs ++ ys) = excess xs + excess ys := by
  simp only [excess, List.countP_append]
  omega

theorem excess_cons (i : Instruction) (is : List Instruction) :
    excess (i :: is) = (if i.opens then -1 else if i.closes then 1 else 0) + excess is := by
  cases ho : i.opens with
  | true =>
      have hc : i.closes = false := by
        cases hc : i.closes with
        | true => rw [Instruction.opens_eq_false_of_closes hc] at ho; cases ho
        | false => rfl
      simp only [excess, List.countP_cons, ho, hc, Bool.false_eq_true, if_true, if_false]
      omega
  | false =>
      cases hc : i.closes <;> simp only [excess, List.countP_cons, ho, hc, Bool.false_eq_true, if_true, if_false] <;>
        omega

/-- The open loops after a stretch are those before it, less the excess of ends. -/
theorem eq_sub_excess_of_depthAfter? (h : depthAfter? depth xs = some depth') :
    (depth' : Int) = depth - excess xs := by
  fun_induction depthAfter? depth xs with
  | case1 depth =>
      obtain rfl := Option.some.inj h
      simp [excess]
  | case2 depth i is ho ih =>
      rw [ih h, excess_cons, if_pos ho]
      push_cast
      omega
  | case3 => cases h
  | case4 i is ho hc depth ih =>
      rw [ih h, excess_cons, if_neg ho, if_pos hc]
      push_cast
      omega
  | case5 depth i is ho hc ih => rw [ih h, excess_cons, if_neg ho, if_neg hc, Int.zero_add]

/-- A stretch that ends a loop from before it has a place where its ends are more than its begins by all the loops
that were open. -/
theorem exists_excess_of_depthAfter? (h : depthAfter? depth xs = none) :
    ∃ n < xs.length, excess (xs.take (n + 1)) = depth + 1 := by
  fun_induction depthAfter? depth xs with
  | case1 => cases h
  | case2 depth i is ho ih =>
      obtain ⟨n, hn, hexcess⟩ := ih h
      refine ⟨n + 1, Nat.succ_lt_succ hn, ?_⟩
      rw [List.take_succ_cons, excess_cons, if_pos ho, hexcess]
      push_cast
      omega
  | case3 i is ho hc =>
      refine ⟨0, Nat.succ_pos _, ?_⟩
      rw [List.take_succ_cons, excess_cons, if_neg ho, if_pos hc]
      rfl
  | case4 i is ho hc depth ih =>
      obtain ⟨n, hn, hexcess⟩ := ih h
      refine ⟨n + 1, Nat.succ_lt_succ hn, ?_⟩
      rw [List.take_succ_cons, excess_cons, if_neg ho, if_pos hc, hexcess]
      push_cast
      omega
  | case5 depth i is ho hc ih =>
      obtain ⟨n, hn, hexcess⟩ := ih h
      refine ⟨n + 1, Nat.succ_lt_succ hn, ?_⟩
      rw [List.take_succ_cons, excess_cons, if_neg ho, if_neg hc, hexcess, Int.zero_add]

/-! Proper brackets. -/

/-- A stretch ends so many loops from before it, and matches its brackets otherwise. -/
def Closes : Nat → List Instruction → Prop
  | 0, xs => Bracketed xs
  | depth + 1, xs => ∃ body last rest, xs = body ++ last :: rest ∧ Bracketed body ∧ last.closes = true ∧ Closes depth rest

theorem Closes.plain (ho : i.opens = false) (hc : i.closes = false) (h : Closes depth xs) : Closes depth (i :: xs) := by
  cases depth with
  | zero => exact .plain ho hc h
  | succ depth =>
      obtain ⟨body, last, rest, rfl, hbody, hlast, hrest⟩ := h
      exact ⟨i :: body, last, rest, rfl, .plain ho hc hbody, hlast, hrest⟩

theorem Closes.loop (ho : i.opens = true) (h : Closes (depth + 1) xs) : Closes depth (i :: xs) := by
  obtain ⟨body, last, rest, rfl, hbody, hlast, hrest⟩ := h
  cases depth with
  | zero => exact .loop ho hlast hbody hrest
  | succ depth =>
      -- The loop that begins here is over before the first one from before the stretch.
      obtain ⟨body', last', rest', rfl, hbody', hlast', hrest'⟩ := hrest
      refine ⟨i :: body ++ last :: body', last', rest', ?_, .loop ho hlast hbody hbody', hlast', hrest'⟩
      simp

theorem closes_of_depthAfter? (h : depthAfter? depth xs = some 0) : Closes depth xs := by
  fun_induction depthAfter? depth xs with
  | case1 depth =>
      obtain rfl := Option.some.inj h
      exact .nil
  | case2 depth i is ho ih => exact (ih h).loop ho
  | case3 => cases h
  | case4 i is ho hc depth ih => exact ⟨[], i, is, rfl, .nil, hc, ih h⟩
  | case5 depth i is ho hc ih => exact (ih h).plain (Bool.eq_false_iff.2 ho) (Bool.eq_false_iff.2 hc)

/-! The scan. -/

/-- Up to where no end has closed the loop itself, the scan counts the loops that are open inside of it. -/
theorem exists_depth (xs : List Instruction) (n : Nat)
    (unended : ∀ m < n, m < xs.length → excess (xs.take (m + 1)) ≠ 1) :
    ∃ depth : Nat, depthAfter? 0 (xs.take n) = some depth ∧ (depth : Int) = -excess (xs.take n) := by
  cases h : depthAfter? 0 (xs.take n) with
  | none =>
      obtain ⟨m, hm, hexcess⟩ := exists_excess_of_depthAfter? h
      rw [List.length_take, Nat.lt_min] at hm
      rw [List.take_take, Nat.min_eq_left hm.1] at hexcess
      exact absurd hexcess (unended m hm.1 hm.2)
  | some depth =>
      refine ⟨depth, rfl, ?_⟩
      rw [eq_sub_excess_of_depthAfter? h]
      exact Int.zero_sub _

theorem bodyLength_eq_add (h : depthAfter? 0 (xs.take n) = some depth) (hn : n ≤ xs.length) :
    bodyLength 0 xs = n + bodyLength depth (xs.drop n) := by
  conv_lhs => rw [← List.take_append_drop n xs, bodyLength_append_of_some h, List.length_take_of_le hn]

/-- At the first place where the ends are one more than the begins, the scan stops. -/
theorem bodyLength_of_first (hn : n < xs.length) (first : ∀ m < n, excess (xs.take (m + 1)) ≠ 1)
    (reached : excess (xs.take (n + 1)) = 1) : bodyLength 0 xs = n + 1 ∧ Bracketed (xs.take n) := by
  obtain ⟨depth, hdepth, hexcess⟩ := exists_depth xs n fun m hm _ => first m hm
  rw [List.take_add_one, List.getElem?_eq_getElem hn, Option.toList_some, excess_append, excess_cons] at reached
  have hnil : excess [] = 0 := rfl
  -- One instruction adds one at most, so the scan is at zero here and at an end.
  have hends : xs[n].opens = false ∧ xs[n].closes = true ∧ depth = 0 := by
    cases ho : xs[n].opens <;> cases hc : xs[n].closes <;> simp [ho, hc, hnil] at reached ⊢ <;> omega
  obtain ⟨ho, hc, rfl⟩ := hends
  constructor
  · rw [bodyLength_eq_add hdepth hn.le, List.drop_eq_getElem_cons hn, bodyLength_cons, ho, hc]
    rfl
  · exact closes_of_depthAfter? hdepth

theorem bodyLength_of_unended (xs : List Instruction)
    (unended : ∀ n < xs.length, excess (xs.take (n + 1)) ≠ 1) :
    bodyLength 0 xs = xs.length := by
  obtain ⟨depth, hdepth, -⟩ := exists_depth xs xs.length fun m hm _ => unended m hm
  rw [bodyLength_eq_add hdepth le_rfl, List.drop_length]
  rfl

/-! Positions. -/

theorem length_drop_succ (p : Program) (begin : Nat) :
    (p.instructions.drop (begin + 1)).length = p.length - (begin + 1) := List.length_drop

theorem between_add (p : Program) (begin n : Nat) :
    p.between begin (begin + 1 + n) = (p.instructions.drop (begin + 1)).take n := by
  rw [between, Nat.add_sub_cancel_left]

theorem endsAt_add_iff (p : Program) (begin n : Nat) :
    p.EndsAt begin (begin + 1 + n) ↔
      n < (p.instructions.drop (begin + 1)).length ∧ excess ((p.instructions.drop (begin + 1)).take (n + 1)) = 1 := by
  rw [EndsAt, length_drop_succ, Nat.add_assoc (begin + 1), between_add]
  constructor
  · rintro ⟨-, hj, hexcess⟩
    exact ⟨by omega, hexcess⟩
  · rintro ⟨hn, hexcess⟩
    exact ⟨by omega, by omega, hexcess⟩

theorem afterLoop_eq_add_bodyLength (p : Program) (begin : Nat) :
    p.afterLoop begin = min (begin + 1) p.length + bodyLength 0 (p.instructions.drop (begin + 1)) := rfl

/-- Where no end has closed the loop itself, the scan is at the depth that the brackets say. -/
theorem exists_depth_between {begin : Nat} (unended : ∀ m < n, ¬p.EndsAt begin (begin + 1 + m))
    (inside : begin + 1 + n < p.afterLoop begin) :
    ∃ depth : Nat, (depth : Int) = -excess (p.between begin (begin + 1 + n)) ∧
      p.afterLoop begin = begin + 1 + n + bodyLength depth (p.instructions.drop (begin + 1 + n)) := by
  have after := p.afterLoop_eq_add_bodyLength begin
  have size := p.length_drop_succ begin
  have within := bodyLength_le 0 (p.instructions.drop (begin + 1))
  obtain ⟨depth, hdepth, hexcess⟩ := exists_depth (p.instructions.drop (begin + 1)) n
    fun m hm hlt hexcess => unended m hm ((p.endsAt_add_iff begin m).2 ⟨hlt, hexcess⟩)
  have split := bodyLength_eq_add hdepth (by omega)
  rw [List.drop_drop] at split
  refine ⟨depth, by rw [between_add, hexcess], ?_⟩
  omega

/-- The way past a loop leads behind the first place where the ends are one more than the begins, and to the end of
the list where there is none. Up to there the scan counts the begins less the ends, a natural number at every place:
no end is met at depth zero but the last one. What lies before that one is properly bracketed. -/
theorem afterLoop_first_end (p : Program) (begin : Nat) :
    ((∃ j, IsLeast {j | p.EndsAt begin j} j ∧ p.afterLoop begin = j + 1 ∧ Bracketed (p.between begin j)) ∨
      (∀ j, ¬p.EndsAt begin j) ∧ p.afterLoop begin = p.length) ∧
    ∀ k, begin < k → k < p.afterLoop begin → ∃ depth : Nat, (depth : Int) = -excess (p.between begin k) ∧
      p.afterLoop begin = k + bodyLength depth (p.instructions.drop k) := by
  have after := p.afterLoop_eq_add_bodyLength begin
  have size := p.length_drop_succ begin
  by_cases ended : ∃ n, p.EndsAt begin (begin + 1 + n)
  · obtain ⟨n, ends, first⟩ : ∃ n, p.EndsAt begin (begin + 1 + n) ∧ ∀ m < n, ¬p.EndsAt begin (begin + 1 + m) := by
      classical exact ⟨Nat.find ended, Nat.find_spec ended, fun m => Nat.find_min ended⟩
    obtain ⟨hn, reached⟩ := (p.endsAt_add_iff begin n).1 ends
    obtain ⟨stop, bracketed⟩ := bodyLength_of_first hn
      (fun m hm hexcess => first m hm ((p.endsAt_add_iff begin m).2 ⟨Nat.lt_trans hm hn, hexcess⟩)) reached
    have passed : p.afterLoop begin = begin + 1 + n + 1 := by omega
    refine ⟨.inl ⟨begin + 1 + n, ⟨ends, fun j hj => ?_⟩, passed, ?_⟩, fun k hk inside => ?_⟩
    · obtain ⟨m, rfl⟩ := Nat.exists_eq_add_of_le hj.1
      exact Nat.add_le_add_left (Nat.le_of_not_lt fun hm => first m hm hj) _
    · rwa [between_add]
    · obtain ⟨m, rfl⟩ := Nat.exists_eq_add_of_le hk
      exact exists_depth_between (fun l hl => first l (by omega)) inside
  · have never (n : Nat) : ¬p.EndsAt begin (begin + 1 + n) := fun h => ended ⟨n, h⟩
    have stop := bodyLength_of_unended (p.instructions.drop (begin + 1))
      fun n hn hexcess => never n ((p.endsAt_add_iff begin n).2 ⟨hn, hexcess⟩)
    have passed : p.afterLoop begin = p.length := by omega
    refine ⟨.inr ⟨fun j hj => ?_, passed⟩, fun k hk inside => ?_⟩
    · obtain ⟨n, rfl⟩ := Nat.exists_eq_add_of_le hj.1
      exact never n hj
    · obtain ⟨m, rfl⟩ := Nat.exists_eq_add_of_le hk
      exact exists_depth_between (fun l _ => never l) inside

/-- The first loop holds a disabled end and another loop, and more ends follow than loops begin. -/
def crooked : Program where
  id := 1
  instructions := [.beginLoop 2, Instruction.endLoop.disabled, .beginLoop 3, .wait 1, .endLoop, .endLoop, .endLoop]

theorem afterLoop_crooked :
    IsLeast {j | crooked.EndsAt 0 j} 5 ∧ crooked.afterLoop 0 = 6 ∧ Bracketed (crooked.between 0 5) ∧
      ∃ depth : Nat, (depth : Int) = -excess (crooked.between 0 4) ∧
        crooked.afterLoop 0 = 4 + bodyLength depth (crooked.instructions.drop 4) := by
  have after : crooked.afterLoop 0 = 6 := by decide
  obtain ⟨⟨j, least, stop, bracketed⟩ | ⟨-, stop⟩, counted⟩ := afterLoop_first_end crooked 0
  · obtain rfl : j = 5 := by omega
    exact ⟨least, after, bracketed, counted 4 (by decide) (by omega)⟩
  · rw [after] at stop
    cases stop

end Danmaku.Program
