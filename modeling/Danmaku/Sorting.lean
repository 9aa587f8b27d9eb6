/-! Stable sorting by a total order. Items that are already in order stay as they are, which one look at
each pair of neighbours tells; all others are sorted by merging. Items that compare equal keep their
order. -/

namespace Danmaku.Sorting

variable {β : Type} (le : β → β → Bool)

/-- Whether every item may stand before the next one. -/
@[specialize] def inOrder : List β → Bool
  | a :: b :: l => le a b && inOrder (b :: l)
  | _ => true

@[specialize] def sort (l : List β) : List β := if inOrder le l then l else l.mergeSort le

theorem perm_sort (l : List β) : (sort le l).Perm l := by
  rw [sort]
  split
  · exact .refl _
  · exact List.mergeSort_perm l le

theorem mem_sort {a : β} {l : List β} : a ∈ sort le l ↔ a ∈ l := (perm_sort le l).mem_iff

theorem length_sort (l : List β) : (sort le l).length = l.length := (perm_sort le l).length_eq

variable {le}

theorem inOrder_of_pairwise {l : List β} (h : l.Pairwise (le · ·)) : inOrder le l = true := by
  fun_induction inOrder le l with
  | case1 a b l ih =>
    obtain ⟨ha, hl⟩ := List.pairwise_cons.1 h
    simp [ha b (.head _), ih hl]
  | case2 => rfl

/-- Neighbours in order put all items in order. -/
theorem pairwise_of_inOrder (trans : ∀ a b c, le a b = true → le b c = true → le a c = true) {l : List β}
    (h : inOrder le l = true) : l.Pairwise (le · ·) := by
  fun_induction inOrder le l with
  | case1 a b l ih =>
    obtain ⟨hab, hl⟩ := Bool.and_eq_true_iff.1 h
    have hbl := ih hl
    refine List.pairwise_cons.2 ⟨fun c hc => ?_, hbl⟩
    rcases List.mem_cons.1 hc with rfl | hc
    · exact hab
    · exact trans a b c hab ((List.pairwise_cons.1 hbl).1 c hc)
  | case2 l hl =>
    match l, hl with
    | [], _ => exact .nil
    | [a], _ => exact List.pairwise_singleton _ a
    | a :: b :: l, hl => exact (hl a b l rfl).elim

theorem pairwise_sort (trans : ∀ a b c, le a b = true → le b c = true → le a c = true)
    (total : ∀ a b, (le a b || le b a) = true) (l : List β) : (sort le l).Pairwise (le · ·) := by
  rw [sort]
  split
  · exact pairwise_of_inOrder trans ‹_›
  · exact List.pairwise_mergeSort trans total l

/-- Sorting keeps what is sorted. -/
theorem sort_eq_self {l : List β} (h : l.Pairwise (le · ·)) : sort le l = l := by
  rw [sort, if_pos (inOrder_of_pairwise h)]

/-- Leaves out what is equal to the item after it. -/
def dedup : List Nat → List Nat
  | a :: b :: l => if a = b then dedup (b :: l) else a :: dedup (b :: l)
  | l => l

theorem mem_dedup {a : Nat} {l : List Nat} : a ∈ dedup l ↔ a ∈ l := by
  fun_induction dedup l with
  | case1 b l ih => simp [ih]
  | case2 b c l _ ih => simp [ih]
  | case3 => rfl

theorem pairwise_dedup {l : List Nat} (h : l.Pairwise (· ≤ ·)) : (dedup l).Pairwise (· < ·) := by
  fun_induction dedup l with
  | case1 b l ih => exact ih (List.pairwise_cons.1 h).2
  | case2 b c l hne ih =>
    obtain ⟨hb, hl⟩ := List.pairwise_cons.1 h
    refine List.pairwise_cons.2 ⟨fun d hd => ?_, ih hl⟩
    have hbc := hb c (.head _)
    rcases List.mem_cons.1 (mem_dedup.1 hd) with rfl | hd
    · omega
    · have := (List.pairwise_cons.1 hl).1 d hd
      omega
  | case3 l hl =>
    match l, hl with
    | [], _ => exact .nil
    | [a], _ => exact List.pairwise_singleton _ a
    | a :: b :: l, hl => exact (hl a b l rfl).elim

/-- The members of a list in ascending order, each one once. -/
def sortedSet (l : List Nat) : List Nat := dedup (sort (fun a b => decide (a ≤ b)) l)

theorem mem_sortedSet {a : Nat} {l : List Nat} : a ∈ sortedSet l ↔ a ∈ l := by
  rw [sortedSet, mem_dedup, mem_sort]

theorem pairwise_sortedSet (l : List Nat) : (sortedSet l).Pairwise (· < ·) := by
  refine pairwise_dedup ((pairwise_sort (fun a b c h h' => ?_) (fun a b => ?_) l).imp fun h => by simpa using h)
  · simp only [decide_eq_true_eq] at *
    omega
  · simp only [Bool.or_eq_true, decide_eq_true_eq]
    omega

/-- The look at the neighbours changes no result. -/
theorem sort_eq_mergeSort (trans : ∀ a b c, le a b = true → le b c = true → le a c = true) (l : List β) :
    sort le l = l.mergeSort le := by
  rw [sort]
  split
  · exact (List.mergeSort_of_pairwise (pairwise_of_inOrder trans ‹_›)).symm
  · rfl

end Danmaku.Sorting
