import Danmaku.Proofs.Brackets
import Danmaku.Proofs.History

/-! The text of a program around a counted loop, and the text with the loop unrolled, where the body stands as
often as the loop turns. A position of the first text is taken across to the second by the iteration that the
loop is in. The instructions are the same there, the begin and the end of the loop apart, and a loop that is
not entered is passed by to the same place. -/

namespace Danmaku

structure LoopText where
  id : UInt32
  pre : List Instruction
  begin : Instruction
  body : List Instruction
  last : Instruction
  post : List Instruction
  /-- The parameter of the count. -/
  iterations : Param Int32

namespace LoopText

/-- What the parameter of the count reads as, if it is fixed. -/
def count (l : LoopText) : Int32 := l.iterations.tree.root.default

def turns (l : LoopText) : Nat := l.count.toInt.toNat

/-- The body, as often as the loop turns. -/
def copies (l : LoopText) : List Instruction := (List.replicate l.turns l.body).flatten

def looped (l : LoopText) : Program := ⟨l.id, l.pre ++ l.begin :: (l.body ++ l.last :: l.post)⟩

def unrolled (l : LoopText) : Program := ⟨l.id, l.pre ++ (l.copies ++ l.post)⟩

/-- The position of the begin. -/
def head (l : LoopText) : Nat := l.pre.length

/-- The position of the end. -/
def foot (l : LoopText) : Nat := l.pre.length + 1 + l.body.length

/-- An enabled begin of a fixed count, and the end that closes it. What the body asks for is drawn at every
use, and nothing around it is drawn again by the iterations of a loop. -/
structure Unrollable (l : LoopText) : Prop where
  begin_enabled : l.begin.enabled = true
  begin_kind : l.begin.kind = .beginLoop l.iterations false
  fixed : l.iterations.tree.root.mode = .fixed
  last_enabled : l.last.enabled = true
  last_kind : l.last.kind = .endLoop
  matched : (l.looped.openLoops l.foot).head? = some l.head
  around : ∀ i ∈ l.pre ++ l.post, ∀ q ∈ i.queries, ∀ rule, q.2.param.reroll ≠ .atLoops rule
  within : ∀ i ∈ l.body, ∀ q ∈ i.queries, q.2.param.reroll = .always
  nonempty : l.unrolled.isEmpty = false

/-- A position from the first of the body to the end. -/
def Inside (l : LoopText) (position : Nat) : Prop := l.head < position ∧ position ≤ l.foot

/-- Where a position is in the unrolled text, with so many iterations done. -/
def across (l : LoopText) (j position : Nat) : Nat :=
  if position ≤ l.head then position
  else if position ≤ l.foot then position - 1 + j * l.body.length
  else position - (l.body.length + 2) + l.turns * l.body.length

variable {l : LoopText} {i : Instruction} {j k s : Nat}

theorem across_before (h : s ≤ l.head) : l.across j s = s := if_pos h

theorem across_body {x : Nat} (h : x ≤ l.body.length) :
    l.across j (l.head + 1 + x) = l.head + (j * l.body.length + x) := by
  unfold across head foot
  rw [if_neg (by omega), if_pos (by omega)]
  omega

theorem across_behind (x : Nat) : l.across j (l.foot + 1 + x) = l.head + (l.turns * l.body.length + x) := by
  unfold across head foot
  rw [if_neg (by omega), if_neg (by omega)]
  omega

/-- Outside of the loop, the iteration does not count. -/
theorem across_outside (inside : ¬l.Inside s) (j k : Nat) : l.across j s = l.across k s := by
  unfold across
  split
  · rfl
  · rw [if_neg fun hle => inside ⟨by omega, hle⟩, if_neg fun hle => inside ⟨by omega, hle⟩]

/-- Every position but those of the begin and the end is before the loop, in its body or behind it. -/
theorem position_cases (begin : s ≠ l.head) (last : s ≠ l.foot) :
    s < l.head ∨ (∃ x < l.body.length, s = l.head + 1 + x) ∨ ∃ x, s = l.foot + 1 + x := by
  unfold head at begin ⊢
  unfold foot at last ⊢
  rcases Nat.lt_or_ge s l.pre.length with h | h
  · exact Or.inl h
  · rcases Nat.lt_or_ge s (l.pre.length + 1 + l.body.length) with h' | h'
    · exact Or.inr (Or.inl ⟨s - (l.pre.length + 1), by omega, by omega⟩)
    · exact Or.inr (Or.inr ⟨s - (l.pre.length + 1 + l.body.length + 1), by omega⟩)

theorem across_succ (begin : s ≠ l.head) (last : s ≠ l.foot) : l.across j (s + 1) = l.across j s + 1 := by
  rcases position_cases begin last with h | ⟨x, h, rfl⟩ | ⟨x, rfl⟩
  · rw [across_before h, across_before (Nat.le_of_lt h)]
  · rw [Nat.add_assoc, across_body h, across_body (Nat.le_of_lt h)]
    rfl
  · rw [Nat.add_assoc, across_behind, across_behind]
    rfl

/-- Outside of the loop, the iteration does not matter, and no two positions come together. -/
theorem across_inj {s' : Nat} (begin : s ≠ l.head) (inside : ¬l.Inside s) (begin' : s' ≠ l.head)
    (inside' : ¬l.Inside s') (h : l.across j s = l.across k s') : s = s' := by
  unfold Inside foot head at inside inside'
  unfold head at begin begin'
  unfold across foot head at h
  split at h
  · split at h
    · exact h
    · rw [if_neg (by omega)] at h
      omega
  · rw [if_neg (by omega)] at h
    split at h
    · omega
    · rw [if_neg (by omega)] at h
      omega

theorem drop_before (h : s ≤ l.head) (xs : List Instruction) : (l.pre ++ xs).drop s = l.pre.drop s ++ xs :=
  List.drop_append_of_le_length h

theorem drop_looped_body {x : Nat} (h : x ≤ l.body.length) :
    l.looped.instructions.drop (l.head + 1 + x) = l.body.drop x ++ l.last :: l.post := by
  unfold looped head
  rw [Nat.add_assoc, List.drop_length_add_append, Nat.add_comm 1 x, List.drop_succ_cons,
    List.drop_append_of_le_length h]

theorem drop_looped_behind (x : Nat) : l.looped.instructions.drop (l.foot + 1 + x) = l.post.drop x := by
  have hpos : l.foot + 1 + x = l.pre.length + (l.body.length + (x + 1) + 1) := by
    unfold foot
    omega
  unfold looped
  rw [hpos, List.drop_length_add_append, List.drop_succ_cons, List.drop_length_add_append,
    List.drop_succ_cons]

theorem length_replicate_body (n : Nat) : (List.replicate n l.body).flatten.length = n * l.body.length := by
  rw [List.length_flatten, List.map_replicate, List.sum_replicate_nat]

theorem length_copies : l.copies.length = l.turns * l.body.length := length_replicate_body l.turns

theorem drop_unrolled_body {x : Nat} (hj : j < l.turns) (h : x ≤ l.body.length) :
    l.unrolled.instructions.drop (l.head + (j * l.body.length + x)) =
      l.body.drop x ++ ((List.replicate (l.turns - (j + 1)) l.body).flatten ++ l.post) := by
  have hcopies : l.copies = (List.replicate j l.body).flatten ++
      (l.body ++ (List.replicate (l.turns - (j + 1)) l.body).flatten) := by
    rw [copies, ← List.flatten_cons, ← List.replicate_succ, ← List.flatten_append,
      List.replicate_append_replicate]
    congr 2
    omega
  unfold unrolled head
  rw [List.drop_length_add_append, hcopies, ← length_replicate_body j, List.append_assoc,
    List.drop_length_add_append, List.append_assoc, List.drop_append_of_le_length h]

theorem drop_unrolled_behind (x : Nat) :
    l.unrolled.instructions.drop (l.head + (l.turns * l.body.length + x)) = l.post.drop x := by
  unfold unrolled head
  rw [List.drop_length_add_append, ← length_copies, List.drop_length_add_append]

/-- The same instruction is on both sides. -/
theorem instruction_across (begin : s ≠ l.head) (last : s ≠ l.foot) (turn : l.Inside s → j < l.turns) :
    l.unrolled.instructions[l.across j s]? = l.looped.instructions[s]? := by
  rw [← List.head?_drop, ← List.head?_drop]
  rcases position_cases begin last with h | ⟨x, h, rfl⟩ | ⟨x, rfl⟩
  · rw [across_before (Nat.le_of_lt h), unrolled, looped, drop_before (Nat.le_of_lt h),
      drop_before (Nat.le_of_lt h), List.drop_eq_getElem_cons h]
    rfl
  · have hj := turn ⟨by omega, by unfold foot head; omega⟩
    rw [across_body (Nat.le_of_lt h), drop_unrolled_body hj (Nat.le_of_lt h),
      drop_looped_body (Nat.le_of_lt h), List.drop_eq_getElem_cons h]
    rfl
  · rw [across_behind, drop_unrolled_behind, drop_looped_behind]

theorem looped_head : l.looped.instructions[l.head]? = some l.begin := by
  unfold looped head
  rw [List.getElem?_append_right (Nat.le_refl _), Nat.sub_self]
  rfl

theorem looped_foot : l.looped.instructions[l.foot]? = some l.last := by
  rw [← List.head?_drop, foot, ← head, drop_looped_body (Nat.le_refl _), List.drop_length]
  rfl

theorem foot_lt_length : l.foot < l.looped.length := (List.getElem?_eq_some_iff.1 looped_foot).1

theorem mem_body_of_inside (last : s ≠ l.foot) (inside : l.Inside s)
    (here : l.looped.instructions[s]? = some i) : i ∈ l.body := by
  have begin : s ≠ l.head := Nat.ne_of_gt inside.1
  rcases position_cases begin last with h | ⟨x, h, rfl⟩ | ⟨x, rfl⟩
  · exact absurd inside.1 (Nat.lt_asymm h)
  · rw [← List.head?_drop, drop_looped_body (Nat.le_of_lt h), List.drop_eq_getElem_cons h] at here
    obtain rfl := Option.some.inj here
    exact List.getElem_mem h
  · exact absurd inside.2 (by omega)

theorem mem_around_of_not_inside (begin : s ≠ l.head) (inside : ¬l.Inside s)
    (here : l.looped.instructions[s]? = some i) : i ∈ l.pre ++ l.post := by
  have last : s ≠ l.foot := fun h => inside ⟨by unfold foot at h; unfold head; omega, Nat.le_of_eq h⟩
  rcases position_cases begin last with h | ⟨x, h, rfl⟩ | ⟨x, rfl⟩
  · rw [looped, List.getElem?_append_left h] at here
    exact List.mem_append_left _ (List.mem_of_getElem? here)
  · exact absurd ⟨by omega, by unfold foot head; omega⟩ inside
  · rw [← List.head?_drop, drop_looped_behind, List.head?_drop] at here
    exact List.mem_append_right _ (List.mem_of_getElem? here)

namespace Unrollable

variable (h : l.Unrollable)
include h

theorem begin_opens : l.begin.opens = true := by
  rw [Instruction.opens, h.begin_enabled, h.begin_kind]
  rfl

theorem last_closes : l.last.closes = true := by
  rw [Instruction.closes, h.last_enabled, h.last_kind]
  rfl

/-- At the end, the loop is the innermost that is open. -/
theorem openLoops_foot : ∃ outer, l.looped.openLoops l.foot = l.head :: outer := by
  have hm := h.matched
  cases ho : l.looped.openLoops l.foot with
  | nil =>
      rw [ho] at hm
      cases hm
  | cons k outer =>
      rw [ho] at hm
      exact ⟨outer, by rw [Option.some.inj hm]⟩

/-- The loop is open inside, and nowhere else. -/
theorem mem_openLoops_iff (hs : s ≤ l.looped.length) : l.head ∈ l.looped.openLoops s ↔ l.Inside s := by
  obtain ⟨outer, hfoot⟩ := h.openLoops_foot
  constructor
  · intro hmem
    refine ⟨(Program.of_mem_openLoops hmem hs).1, Nat.le_of_not_lt fun hlt => ?_⟩
    have hpair := Program.pairwise_openLoops (Nat.le_of_lt (foot_lt_length (l := l)))
    have hclosed : l.head ∉ l.looped.openLoops (l.foot + 1) := by
      rw [Program.openLoops_succ_of_closes looped_foot h.last_closes, hfoot]
      rw [hfoot] at hpair
      exact fun hout => Nat.lt_irrefl _ (List.rel_of_pairwise_cons hpair hout)
    have hfar : l.foot + 1 + (s - (l.foot + 1)) = s := by omega
    have hhead : l.head < l.foot + 1 := by
      unfold head foot
      omega
    have := Program.not_mem_openLoops hhead hclosed (s - (l.foot + 1)) (by rwa [hfar])
    rw [hfar] at this
    exact this hmem
  · intro hin
    refine Decidable.byContradiction fun hmem => ?_
    have hfar : s + (l.foot - s) = l.foot := Nat.add_sub_of_le hin.2
    have := Program.not_mem_openLoops hin.1 hmem (l.foot - s) (by rw [hfar]; exact Nat.le_of_lt foot_lt_length)
    rw [hfar, hfoot] at this
    exact this List.mem_cons_self

theorem depthAfter?_body : Program.depthAfter? 0 l.body = some 0 := by
  obtain ⟨outer, hfoot⟩ := h.openLoops_foot
  have hlen : l.foot ≤ l.looped.length := Nat.le_of_lt foot_lt_length
  have hx (n : Nat) (hn : n < l.body.length) : l.looped.instructions[l.head + 1 + n]? = l.body[n]? := by
    rw [← List.head?_drop, drop_looped_body (Nat.le_of_lt hn), List.drop_eq_getElem_cons hn,
      List.getElem?_eq_getElem hn]
    rfl
  have hstart : l.looped.openLoops (l.head + 1) = [] ++ l.head :: l.looped.openLoops l.head :=
    Program.openLoops_succ_of_opens looped_head h.begin_opens
  have hlast : l.head ∈ l.looped.openLoops l.foot := by
    rw [hfoot]
    exact List.mem_cons_self
  obtain ⟨inner, ho, hdepth⟩ :=
    Program.openLoops_stretch l.body (l.head + 1) [] hx hlen (Nat.lt_succ_self _) hstart hlast
  have ho : l.looped.openLoops l.foot = inner ++ l.head :: l.looped.openLoops l.head := ho
  cases inner with
  | nil => exact hdepth
  | cons k inner =>
      -- The innermost loop would be a later one.
      have hpair := Program.pairwise_openLoops hlen
      rw [ho] at hpair
      have hlt := List.rel_of_pairwise_cons hpair (List.mem_append_right inner List.mem_cons_self)
      rw [hfoot] at ho
      obtain rfl := (List.cons.inj ho).1
      exact absurd hlt (Nat.lt_irrefl _)

theorem depthAfter?_copies : Program.depthAfter? 0 l.copies = some 0 := by
  unfold copies
  induction l.turns with
  | zero => rfl
  | succ n ih =>
      rw [List.replicate_succ, List.flatten_cons, Program.depthAfter?_append, h.depthAfter?_body]
      exact ih

/-- Behind the end, if the loop is not entered. -/
theorem afterLoop_head : l.looped.afterLoop l.head = l.foot + 1 := by
  have hlast : l.last.opens = false := Instruction.opens_eq_false_of_closes h.last_closes
  have hdrop := drop_looped_body (l := l) (Nat.zero_le _)
  rw [Nat.add_zero, List.drop_zero] at hdrop
  rw [Program.afterLoop_eq looped_head, hdrop, Program.bodyLength_append_of_some h.depthAfter?_body,
    Program.bodyLength_cons, if_neg (by rw [hlast]; decide), if_pos h.last_closes]
  exact (Nat.add_assoc _ _ _).symm

/-- A loop before this one that is not ended before it ends behind it, or does not end, on both sides. -/
theorem bodyLength_before {depth d : Nat} {xs : List Instruction} (hd : Program.depthAfter? depth xs = some d) :
    Program.bodyLength depth (xs ++ l.begin :: (l.body ++ l.last :: l.post)) =
        xs.length + (l.body.length + 2 + Program.bodyLength d l.post) ∧
      Program.bodyLength depth (xs ++ (l.copies ++ l.post)) =
        xs.length + (l.turns * l.body.length + Program.bodyLength d l.post) := by
  have hbody : Program.depthAfter? (d + 1) l.body = some (d + 1) := by
    have := Program.depthAfter?_add h.depthAfter?_body (d + 1)
    rwa [Nat.zero_add] at this
  have hcopies : Program.depthAfter? d l.copies = some d := by
    have := Program.depthAfter?_add h.depthAfter?_copies d
    rwa [Nat.zero_add] at this
  have hlast : l.last.opens = false := Instruction.opens_eq_false_of_closes h.last_closes
  constructor
  · rw [Program.bodyLength_append_of_some hd, Program.bodyLength_cons, if_pos h.begin_opens,
      Program.bodyLength_append_of_some hbody, Program.bodyLength_cons, if_neg (by rw [hlast]; decide),
      if_pos h.last_closes]
    dsimp only
    omega
  · rw [Program.bodyLength_append_of_some hd, Program.bodyLength_append_of_some hcopies, length_copies]

theorem past_before (hlt : s < l.head) :
    s + 1 + Program.bodyLength 0 (l.unrolled.instructions.drop (s + 1)) =
      l.across j (s + 1 + Program.bodyLength 0 (l.looped.instructions.drop (s + 1))) := by
  have hlen : s + 1 + (l.pre.drop (s + 1)).length = l.head := by
    rw [List.length_drop]
    exact Nat.add_sub_of_le hlt
  rw [unrolled, looped, drop_before hlt, drop_before hlt]
  cases hd : Program.depthAfter? 0 (l.pre.drop (s + 1)) with
  | none =>
      have hle := Program.bodyLength_le 0 (l.pre.drop (s + 1))
      rw [Program.bodyLength_append_of_none hd, Program.bodyLength_append_of_none hd, across_before]
      omega
  | some d =>
      obtain ⟨hlooped, hunrolled⟩ := h.bodyLength_before hd
      have hfoot : s + 1 + ((l.pre.drop (s + 1)).length + (l.body.length + 2 + Program.bodyLength d l.post)) =
          l.foot + 1 + Program.bodyLength d l.post := by
        unfold head at hlen
        unfold foot
        omega
      rw [hlooped, hunrolled, hfoot, across_behind, ← hlen]
      exact (Nat.add_assoc _ _ _).symm

/-- A loop of the body ends within it. -/
theorem depthAfter?_rest {x : Nat} (here : l.body[x]? = some i) (hi : i.opens = true) :
    Program.depthAfter? 0 (l.body.drop (x + 1)) = none := by
  obtain ⟨hx, rfl⟩ := List.getElem?_eq_some_iff.1 here
  have hsplit : l.body = l.body.take x ++ l.body[x] :: l.body.drop (x + 1) := by
    rw [List.getElem_cons_drop, List.take_append_drop]
  have hbody := h.depthAfter?_body
  rw [hsplit] at hbody
  exact Program.depthAfter?_inner hbody hi

theorem past_body {x : Nat} (hj : j < l.turns) (here : l.body[x]? = some i) (hi : i.opens = true) :
    l.head + (j * l.body.length + x) + 1 +
        Program.bodyLength 0 (l.unrolled.instructions.drop (l.head + (j * l.body.length + (x + 1)))) =
      l.across j (l.head + 1 + x + 1 +
        Program.bodyLength 0 (l.looped.instructions.drop (l.head + 1 + (x + 1)))) := by
  have hlt : x + 1 ≤ l.body.length := (List.getElem?_eq_some_iff.1 here).1
  have hnone := h.depthAfter?_rest here hi
  have hle := Program.bodyLength_le 0 (l.body.drop (x + 1))
  rw [List.length_drop] at hle
  rw [drop_looped_body hlt, drop_unrolled_body hj hlt, Program.bodyLength_append_of_none hnone,
    Program.bodyLength_append_of_none hnone, Nat.add_assoc (l.head + 1) x, Nat.add_assoc (l.head + 1),
    across_body (by omega)]
  omega

/-- Past a loop that is not entered, both texts go on at the same place. -/
theorem afterLoop_across (begin : s ≠ l.head) (turn : l.Inside s → j < l.turns)
    (here : l.looped.instructions[s]? = some i) (hi : i.opens = true) :
    l.unrolled.afterLoop (l.across j s) = l.across j (l.looped.afterLoop s) := by
  have last : s ≠ l.foot := by
    rintro rfl
    obtain rfl := Option.some.inj (looped_foot.symm.trans here)
    rw [Instruction.opens_eq_false_of_closes h.last_closes] at hi
    cases hi
  rw [Program.afterLoop_eq here, Program.afterLoop_eq ((instruction_across begin last turn).trans here)]
  rcases position_cases begin last with hlt | ⟨x, hlt, rfl⟩ | ⟨x, rfl⟩
  · rw [across_before (Nat.le_of_lt hlt)]
    exact h.past_before hlt
  · have hj := turn ⟨by omega, by unfold foot head; omega⟩
    rw [← List.head?_drop, drop_looped_body (Nat.le_of_lt hlt), List.drop_eq_getElem_cons hlt] at here
    have hx : l.body[x]? = some i := (List.getElem?_eq_getElem hlt).trans here
    rw [across_body (Nat.le_of_lt hlt)]
    exact h.past_body hj hx hi
  · rw [across_behind, Nat.add_assoc (l.foot + 1) x, Nat.add_assoc l.head, Nat.add_assoc (l.turns * _),
      drop_looped_behind, drop_unrolled_behind, Nat.add_assoc (l.foot + 1), across_behind]
    omega

end Unrollable

end LoopText

end Danmaku
