import Danmaku.Proofs.Brackets
import Danmaku.Proofs.History

/-! A loop without an end, in the text of a program. No end of another loop closes it, so it is open up to the end of
the list. With its begin disabled, the program has the same loops but for this one, and a loop that is not entered is
passed by to the same place. -/

namespace Danmaku

namespace Program

variable {p : Program} {k s : Nat} {i j : Instruction}

/-- The program with one instruction disabled. -/
def disabledAt (p : Program) (k : Nat) : Program := { p with instructions := p.instructions.modify k .disabled }

/-- The begin of a loop that is still open at the end of the list. -/
def Unended (p : Program) (k : Nat) : Prop := k ∈ p.openLoops p.length

instance (p : Program) (k : Nat) : Decidable (p.Unended k) := inferInstanceAs (Decidable (k ∈ p.openLoops p.length))

theorem instructions_disabledAt_of_ne (h : s ≠ k) :
    (p.disabledAt k).instructions[s]? = p.instructions[s]? := by
  simp only [disabledAt, List.getElem?_modify, if_neg (Ne.symm h), id_map']

theorem instructions_disabledAt_self (here : p.instructions[k]? = some i) :
    (p.disabledAt k).instructions[k]? = some i.disabled := by
  simp only [disabledAt, List.getElem?_modify, if_pos, here]
  rfl

theorem instructions_eq (here : p.instructions[k]? = some i) :
    p.instructions = p.instructions.take k ++ i :: p.instructions.drop (k + 1) := by
  obtain ⟨hk, rfl⟩ := List.getElem?_eq_some_iff.1 here
  rw [List.getElem_cons_drop, List.take_append_drop]

theorem instructions_disabledAt (here : p.instructions[k]? = some i) :
    (p.disabledAt k).instructions = p.instructions.take k ++ i.disabled :: p.instructions.drop (k + 1) := by
  obtain ⟨hk, rfl⟩ := List.getElem?_eq_some_iff.1 here
  rw [disabledAt, List.modify_eq_take_cons_drop hk]

theorem isEmpty_disabledAt (p : Program) (k : Nat) : (p.disabledAt k).isEmpty = p.isEmpty := by
  cases instructions : p.instructions with
  | nil => simp only [isEmpty, disabledAt, instructions, List.modify_nil]
  | cons i is =>
      simp only [isEmpty, disabledAt, instructions]
      cases k <;> rfl

theorem opens_disabled (i : Instruction) : i.disabled.opens = false := rfl

theorem closes_disabled (i : Instruction) : i.disabled.closes = false := rfl

namespace Unended

variable (h : p.Unended k)
include h

theorem lt_length : k < p.length := (of_mem_openLoops h (Nat.le_refl _)).1

/-- Behind its begin, no end closes more loops than have begun there. -/
theorem depthAfter? : ∃ d, depthAfter? 0 (p.instructions.drop (k + 1)) = some d := by
  obtain ⟨hk, i, here, opens⟩ := of_mem_openLoops h (Nat.le_refl _)
  have hlen : k + 1 + (p.instructions.drop (k + 1)).length = p.length := by
    rw [List.length_drop]
    exact Nat.add_sub_of_le hk
  have hx (n : Nat) (_ : n < (p.instructions.drop (k + 1)).length) :
      p.instructions[k + 1 + n]? = (p.instructions.drop (k + 1))[n]? := List.getElem?_drop.symm
  have hstart : p.openLoops (k + 1) = [] ++ k :: p.openLoops k := openLoops_succ_of_opens here opens
  obtain ⟨inner, -, hdepth⟩ := openLoops_stretch (p.instructions.drop (k + 1)) (k + 1) [] hx
    (Nat.le_of_eq hlen) (Nat.lt_succ_self _) hstart (by rw [hlen]; exact h)
  exact ⟨inner.length, hdepth⟩

/-- Where another loop ends, this one is not the innermost. -/
theorem head?_openLoops_ne (here : p.instructions[s]? = some j) (closes : j.closes = true) :
    (p.openLoops s).head? ≠ some k := by
  intro innermost
  have hs : s < p.length := (List.getElem?_eq_some_iff.1 here).1
  obtain ⟨outer, opened⟩ := List.head?_eq_some_iff.1 innermost
  have hpair := pairwise_openLoops (Nat.le_of_lt hs)
  rw [opened] at hpair
  have closed : k ∉ p.openLoops (s + 1) := by
    rw [openLoops_succ_of_closes here closes, opened]
    exact fun hmem => Nat.lt_irrefl k (List.rel_of_pairwise_cons hpair hmem)
  have before : k < s := (of_mem_openLoops (List.mem_of_mem_head? innermost) (Nat.le_of_lt hs)).1
  have hfar : s + 1 + (p.length - (s + 1)) = p.length := Nat.add_sub_of_le hs
  have never := not_mem_openLoops (Nat.lt_succ_of_lt before) closed (p.length - (s + 1)) (Nat.le_of_eq hfar)
  rw [hfar] at never
  exact never h

/-- Any other loop that is not entered is passed by to the same place. -/
theorem afterLoop_disabledAt (other : s ≠ k) (here : p.instructions[s]? = some j) :
    (p.disabledAt k).afterLoop s = p.afterLoop s := by
  obtain ⟨hk, i, begin, opens⟩ := of_mem_openLoops h (Nat.le_refl _)
  obtain ⟨d, hd⟩ := h.depthAfter?
  have here' := (instructions_disabledAt_of_ne (p := p) other).trans here
  rw [afterLoop_eq here, afterLoop_eq here']
  congr 1
  have hlen : (p.instructions.take k).length = k := List.length_take_of_le (Nat.le_of_lt hk)
  rcases Nat.lt_or_gt_of_ne other with before | behind
  · have drop (rest : List Instruction) : (p.instructions.take k ++ rest).drop (s + 1) =
        (p.instructions.take k).drop (s + 1) ++ rest := List.drop_append_of_le_length (by omega)
    rw [instructions_disabledAt begin, drop]
    conv => rhs; rw [instructions_eq begin, drop]
    cases depth : Program.depthAfter? 0 ((p.instructions.take k).drop (s + 1)) with
    | none => rw [bodyLength_append_of_none depth, bodyLength_append_of_none depth]
    | some e =>
        -- The loop goes on to the end of the list, whether or not this one is open inside of it.
        have open_end (n : Nat) :
            bodyLength n (p.instructions.drop (k + 1)) = (p.instructions.drop (k + 1)).length := by
          have all := bodyLength_append_of_some (depthAfter?_add hd n) []
          rwa [List.append_nil, Nat.zero_add, bodyLength, Nat.add_zero] at all
        rw [bodyLength_append_of_some depth, bodyLength_append_of_some depth, bodyLength_cons, bodyLength_cons,
          opens, opens_disabled, closes_disabled, if_pos rfl, open_end]
        simp only [Bool.false_eq_true, if_false, open_end]
  · congr 1
    have drop (rest : Instruction) : (p.instructions.take k ++ rest :: p.instructions.drop (k + 1)).drop (s + 1) =
        (p.instructions.drop (k + 1)).drop (s - k) := by
      rw [List.drop_append, hlen, List.drop_of_length_le (by omega), List.nil_append,
        show s + 1 - k = s - k + 1 by omega, List.drop_succ_cons]
    rw [instructions_disabledAt begin, drop]
    conv => rhs; rw [instructions_eq begin, drop]

end Unended

end Program

end Danmaku
