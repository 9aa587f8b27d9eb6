import Danmaku.Proofs.Nesting

/-! Brackets in a stretch of a program. A stretch takes a number of open loops to another one, unless it ends a
loop that was open before it. The way past a loop that is not entered and the loops that are open in the text
both follow the stretch, whatever comes after it. A stretch that begins where a loop is entered and ends where
that loop is innermost again matches its brackets. -/

namespace Danmaku.Program

/-- The loops that are open after some instructions, with so many open before them; none where an end
closes more. -/
def depthAfter? : Nat → List Instruction → Option Nat
  | depth, [] => some depth
  | depth, i :: is =>
    if i.opens then depthAfter? (depth + 1) is
    else if i.closes then
      match depth with
      | 0 => none
      | depth + 1 => depthAfter? depth is
    else depthAfter? depth is

variable {p : Program} {i : Instruction} {depth depth' : Nat} {xs ys : List Instruction}

theorem depthAfter?_cons (depth : Nat) (i : Instruction) (is : List Instruction) :
    depthAfter? depth (i :: is) =
      if i.opens then depthAfter? (depth + 1) is
      else if i.closes then
        match depth with
        | 0 => none
        | depth + 1 => depthAfter? depth is
      else depthAfter? depth is := by
  rw [depthAfter?.eq_def]

theorem depthAfter?_append (depth : Nat) (xs ys : List Instruction) :
    depthAfter? depth (xs ++ ys) = (depthAfter? depth xs).bind (depthAfter? · ys) := by
  fun_induction depthAfter? depth xs with
  | case1 depth => rfl
  | case2 depth i is ho ih => rw [List.cons_append, depthAfter?_cons, if_pos ho, ih]
  | case3 i is ho hc =>
      rw [List.cons_append, depthAfter?_cons, if_neg ho, if_pos hc]
      rfl
  | case4 i is ho hc depth ih =>
      rw [List.cons_append, depthAfter?_cons, if_neg ho, if_pos hc]
      exact ih
  | case5 depth i is ho hc ih => rw [List.cons_append, depthAfter?_cons, if_neg ho, if_neg hc, ih]

/-- More loops around a stretch stay open. -/
theorem depthAfter?_add (h : depthAfter? depth xs = some depth') (k : Nat) :
    depthAfter? (depth + k) xs = some (depth' + k) := by
  fun_induction depthAfter? depth xs with
  | case1 depth =>
      obtain rfl := Option.some.inj h
      rfl
  | case2 depth i is ho ih =>
      rw [depthAfter?_cons, if_pos ho, Nat.add_right_comm]
      exact ih h
  | case3 => cases h
  | case4 i is ho hc depth ih =>
      rw [depthAfter?_cons, if_neg ho, if_pos hc, Nat.succ_add]
      exact ih h
  | case5 depth i is ho hc ih =>
      rw [depthAfter?_cons, if_neg ho, if_neg hc]
      exact ih h

theorem bodyLength_le (depth : Nat) (xs : List Instruction) : bodyLength depth xs ≤ xs.length := by
  induction xs generalizing depth with
  | nil => exact Nat.le_refl 0
  | cons i xs ih =>
      have hup := ih (depth + 1)
      have hhere := ih depth
      rw [bodyLength_cons, List.length_cons]
      split
      · omega
      · split
        · cases depth with
          | zero => exact Nat.succ_le_succ (Nat.zero_le _)
          | succ depth => exact Nat.succ_le_succ (ih depth)
        · omega

theorem afterLoop_eq {k : Nat} (here : p.instructions[k]? = some i) :
    p.afterLoop k = k + 1 + bodyLength 0 (p.instructions.drop (k + 1)) := by
  have hk : k + 1 ≤ p.length := (List.getElem?_eq_some_iff.1 here).1
  rw [afterLoop, Nat.min_eq_left hk]

/-- A loop that a stretch leaves open ends after it. -/
theorem bodyLength_append_of_some (h : depthAfter? depth xs = some depth') (ys : List Instruction) :
    bodyLength depth (xs ++ ys) = xs.length + bodyLength depth' ys := by
  fun_induction depthAfter? depth xs with
  | case1 depth =>
      obtain rfl := Option.some.inj h
      exact (Nat.zero_add _).symm
  | case2 depth i is ho ih =>
      rw [List.cons_append, bodyLength_cons, if_pos ho, ih h, List.length_cons, Nat.add_right_comm]
  | case3 => cases h
  | case4 i is ho hc depth ih =>
      rw [List.cons_append, bodyLength_cons, if_neg ho, if_pos hc, List.length_cons]
      dsimp only
      rw [ih h, Nat.add_right_comm]
  | case5 depth i is ho hc ih =>
      rw [List.cons_append, bodyLength_cons, if_neg ho, if_neg hc, ih h, List.length_cons, Nat.add_right_comm]

/-- A loop that a stretch ends is past where it says, whatever comes after it. -/
theorem bodyLength_append_of_none (h : depthAfter? depth xs = none) (ys : List Instruction) :
    bodyLength depth (xs ++ ys) = bodyLength depth xs := by
  fun_induction depthAfter? depth xs with
  | case1 => cases h
  | case2 depth i is ho ih =>
      rw [List.cons_append, bodyLength_cons, bodyLength_cons, if_pos ho, if_pos ho, ih h]
  | case3 i is ho hc =>
      rw [List.cons_append, bodyLength_cons, bodyLength_cons, if_neg ho, if_pos hc, if_neg ho, if_pos hc]
  | case4 i is ho hc depth ih =>
      rw [List.cons_append, bodyLength_cons, bodyLength_cons, if_neg ho, if_pos hc, if_neg ho, if_pos hc]
      dsimp only
      rw [ih h]
  | case5 depth i is ho hc ih =>
      rw [List.cons_append, bodyLength_cons, bodyLength_cons, if_neg ho, if_neg hc, if_neg ho, if_neg hc, ih h]

/-- A loop that is open is within a stretch that matches its brackets, and so is its end. -/
theorem depthAfter?_inner (h : depthAfter? 0 (xs ++ i :: ys) = some 0) (hi : i.opens = true) :
    depthAfter? 0 ys = none := by
  rw [depthAfter?_append] at h
  obtain ⟨d, -, h⟩ := Option.bind_eq_some_iff.1 h
  rw [depthAfter?_cons, if_pos hi] at h
  cases hys : depthAfter? 0 ys with
  | none => rfl
  | some e =>
      have := depthAfter?_add hys (d + 1)
      rw [Nat.zero_add, h] at this
      cases this

/-- A loop that is not open at a position, and begins before it, is never open after. -/
theorem not_mem_openLoops {k position : Nat} (hk : k < position) (h : k ∉ p.openLoops position) (n : Nat)
    (hn : position + n ≤ p.length) : k ∉ p.openLoops (position + n) := by
  induction n with
  | zero => exact h
  | succ n ih =>
      have hlt : position + n < p.length := hn
      have ih := ih (Nat.le_of_lt hlt)
      obtain ⟨i, hi⟩ : ∃ i, p.instructions[position + n]? = some i := ⟨_, List.getElem?_eq_getElem hlt⟩
      rw [← Nat.add_assoc, openLoops_succ hi]
      split
      · refine fun hmem => ih ((List.mem_cons.1 hmem).resolve_left ?_)
        omega
      · split
        · exact fun hmem => ih (List.mem_of_mem_tail hmem)
        · exact ih

/-- Along a stretch at whose end a loop is still open, as many loops inside of it are open as the brackets
say. -/
theorem openLoops_stretch {k : Nat} {outer : List Nat} (xs : List Instruction) (position : Nat)
    (inner : List Nat) (hx : ∀ n, n < xs.length → p.instructions[position + n]? = xs[n]?)
    (hp : position + xs.length ≤ p.length) (hk : k < position)
    (ho : p.openLoops position = inner ++ k :: outer)
    (hlast : k ∈ p.openLoops (position + xs.length)) :
    ∃ inner', p.openLoops (position + xs.length) = inner' ++ k :: outer ∧
      depthAfter? inner.length xs = some inner'.length := by
  induction xs generalizing position inner with
  | nil => exact ⟨inner, ho, rfl⟩
  | cons i xs ih =>
      have hi : p.instructions[position]? = some i := hx 0 (Nat.succ_pos _)
      have hlen : position + (xs.length + 1) = position + 1 + xs.length := by omega
      rw [List.length_cons, hlen] at hp hlast ⊢
      -- One instruction on, with the loops that are then open inside.
      have next (inner' : List Nat) (ho' : p.openLoops (position + 1) = inner' ++ k :: outer) :
          ∃ inner'', p.openLoops (position + 1 + xs.length) = inner'' ++ k :: outer ∧
            depthAfter? inner'.length xs = some inner''.length := by
        refine ih (position + 1) inner' (fun n hn => ?_) hp (Nat.lt_succ_of_lt hk) ho' hlast
        have := hx (n + 1) (Nat.succ_lt_succ hn)
        rwa [show position + 1 + n = position + (n + 1) by omega]
      cases hopen : i.opens with
      | true =>
          rw [depthAfter?_cons, if_pos hopen]
          exact next (position :: inner) (by rw [openLoops_succ_of_opens hi hopen, ho]; rfl)
      | false =>
          cases hclose : i.closes with
          | true =>
              have ho' := openLoops_succ_of_closes hi hclose
              rw [ho] at ho'
              cases inner with
              | nil =>
                  have hpos : position ≤ p.length := by omega
                  have hout : k ∉ outer := fun hmem => by
                    have hpair := pairwise_openLoops hpos
                    rw [ho] at hpair
                    exact Nat.lt_irrefl k (List.rel_of_pairwise_cons hpair hmem)
                  have hout : k ∉ p.openLoops (position + 1) := by
                    rw [ho']
                    exact hout
                  exact absurd hlast (not_mem_openLoops (Nat.lt_succ_of_lt hk) hout xs.length hp)
              | cons j inner =>
                  rw [depthAfter?_cons, if_neg (by rw [hopen]; exact Bool.false_ne_true), if_pos hclose]
                  exact next inner ho'
          | false =>
              rw [depthAfter?_cons, if_neg (by rw [hopen]; exact Bool.false_ne_true),
                if_neg (by rw [hclose]; exact Bool.false_ne_true)]
              exact next inner (by rw [openLoops_succ_of_neither hi hopen hclose, ho])

end Danmaku.Program
