/-! Search by halves, as in a list that is in order. Whatever the order, the item that the search ends at is known by
what it has looked at; what this says of a whole list depends on how the list is ordered. -/

namespace Danmaku.Search

variable {β : Type}

/-- Looks at `n` items from `base` on, and goes on from their middle if `p` holds of the item there, up to it if not. -/
@[specialize] def halve (p : β → Bool) (items : Array β) (base n : Nat) (_ : 0 < n) (_ : base + n ≤ items.size) :
    Fin items.size :=
  if _ : n = 1 then ⟨base, by omega⟩
  else if p items[base + n / 2] then halve p items (base + n / 2) (n - n / 2) (by omega) (by omega)
  else halve p items base (n - n / 2) (by omega) (by omega)
termination_by n

/-- The item at which the search of all items ends. -/
@[inline] def last? (p : β → Bool) (items : Array β) : Option (Fin items.size) :=
  if h : 0 < items.size then some (halve p items 0 items.size h (Nat.le_of_eq (Nat.zero_add _))) else none

/-- The place of an item by its key. -/
@[specialize] def position? (key : β → Nat) (items : Array β) (target : Nat) : Option Nat :=
  match last? (fun x => key x ≤ target) items with
  | some i => if key items[i] = target then some i else none
  | none => none

/-- How many of the first items satisfy `p`, where these are all that do. -/
@[specialize] def partitionPoint (p : β → Bool) (items : Array β) : Nat :=
  match last? p items with
  | some i => if p items[i] then i + 1 else i
  | none => 0

/-- The items right before a place and at it. There are none where either is out of range, as before the first item. -/
def around? (items : Array β) : Nat → Option (β × β)
  | 0 => none
  | n + 1 =>
    match items[n]?, items[n + 1]? with
    | some a, some b => some (a, b)
    | _, _ => none

/-- Where the search of `n` items looks as long as `p` fails. -/
def probes (n : Nat) : List Nat :=
  if n ≤ 1 then [] else n / 2 :: probes (n - n / 2)
termination_by n

section Ends

variable {p : β → Bool} {items : Array β} {base n : Nat}

/-- What is known of the place at which a search of `n` items from `base` on ends. -/
structure Ends (p : β → Bool) (items : Array β) (base n : Nat) (i : Fin items.size) : Prop where
  first : base ≤ i
  below : i < base + n
  before : base < i → p items[i] = true
  after : ∀ next : i + 1 < items.size, i + 1 < base + n → p items[i] = true → p items[i.val + 1] = false

theorem ends_halve (pos : 0 < n) (h : base + n ≤ items.size) : Ends p items base n (halve p items base n pos h) := by
  fun_induction halve p items base n pos h with
  | case1 base pos h =>
    exact ⟨Nat.le_refl base, Nat.lt_succ_self base, fun hb => absurd hb (Nat.lt_irrefl base),
      fun _ hb => absurd hb (Nat.lt_irrefl _)⟩
  | case2 base n pos h one hp ih =>
    refine ⟨Nat.le_trans (Nat.le_add_right _ _) ih.first, by have := ih.below; omega, fun _ => ?_,
      fun next hn => ih.after next (by omega)⟩
    rcases Nat.eq_or_lt_of_le ih.first with same | later
    · simpa only [Fin.getElem_fin, ← same] using hp
    · exact ih.before later
  | case3 base n pos h one hp ih =>
    refine ⟨ih.first, by have := ih.below; omega, ih.before, fun next hn hi => ?_⟩
    by_cases within : (halve p items base (n - n / 2) (by omega) (by omega)).val + 1 < base + (n - n / 2)
    · exact ih.after next within hi
    · -- What is left ends at the middle, or right behind it if the number is odd.
      have below := ih.below
      generalize halve p items base (n - n / 2) (by omega) (by omega) = i at *
      rcases (by omega : i.val + 1 = base + n / 2 ∨ i.val = base + n / 2) with middle | middle
      · simpa only [middle, Bool.not_eq_true] using hp
      · exact absurd (by simpa only [Fin.getElem_fin, middle] using hi) hp

/-- A search stays at its start if `p` fails wherever it looks. -/
theorem halve_eq_base_iff (pos : 0 < n) (h : base + n ≤ items.size) :
    (halve p items base n pos h).val = base ↔ ∀ k ∈ probes n, ∀ b, items[base + k]? = some b → p b = false := by
  fun_induction halve p items base n pos h with
  | case1 base pos h =>
    rw [probes, if_pos (Nat.le_refl 1)]
    exact iff_of_true rfl (fun _ hk => absurd hk List.not_mem_nil)
  | case2 base n pos h one hp ih =>
    have middle : base + n / 2 < items.size := by omega
    have half : base + n / 2 + (n - n / 2) ≤ items.size := by omega
    have later := (ends_halve (p := p) (by omega) half).first
    rw [probes, if_neg (by omega)]
    refine iff_of_false (by omega) fun all => ?_
    have fails := all (n / 2) List.mem_cons_self _ (Array.getElem?_eq_getElem middle)
    exact Bool.false_ne_true (fails.symm.trans hp)
  | case3 base n pos h one hp ih =>
    have middle : base + n / 2 < items.size := by omega
    rw [probes, if_neg (by omega), ih, List.forall_mem_cons]
    refine (and_iff_right fun b hb => ?_).symm
    rw [Array.getElem?_eq_getElem middle, Option.some.injEq] at hb
    exact hb ▸ Bool.eq_false_iff.2 hp

theorem halve_map {γ : Type} (f : γ → β) (items : Array γ) (pos : 0 < n) (h : base + n ≤ (items.map f).size) :
    (halve p (items.map f) base n pos h).val =
      (halve (fun x => p (f x)) items base n pos (by rwa [Array.size_map] at h)).val := by
  fun_induction halve p (items.map f) base n pos h with
  | case1 => rw [halve, dif_pos rfl]
  | case2 base n pos h one hp ih =>
    rw [Array.getElem_map] at hp
    symm
    rw [ih, halve, dif_neg one, if_pos hp]
  | case3 base n pos h one hp ih =>
    rw [Array.getElem_map] at hp
    symm
    rw [ih, halve, dif_neg one, if_neg hp]

theorem ends_of_last? {i : Fin items.size} (found : last? p items = some i) : Ends p items 0 items.size i := by
  rw [last?] at found
  split at found
  · exact Option.some.inj found ▸ ends_halve _ _
  · cases found

theorem exists_last? (pos : 0 < items.size) : ∃ i, last? p items = some i := ⟨_, dif_pos pos⟩

theorem last?_eq_none_iff : last? p items = none ↔ items.size = 0 := by
  rw [last?]
  split
  · exact iff_of_false nofun (by omega)
  · exact iff_of_true rfl (by omega)

theorem last?_map {γ : Type} (f : γ → β) (items : Array γ) :
    (last? p (items.map f)).map Fin.val = (last? (fun x => p (f x)) items).map Fin.val := by
  simp only [last?, Array.size_map]
  split
  · simp only [Option.map_some, halve_map]
  · rfl

end Ends

section Position

variable {key : β → Nat} {items : Array β} {target : Nat}

theorem getElem_of_position? {i : Nat} (found : position? key items target = some i) :
    ∃ hi : i < items.size, key items[i] = target := by
  rw [position?] at found
  split at found
  · rename_i j _
    split at found
    · rename_i hk
      exact Option.some.inj found ▸ ⟨j.isLt, hk⟩
    · cases found
  · cases found

/-- The keys of the items ascend. -/
def Ascending (key : β → Nat) (items : Array β) : Prop := items.toList.Pairwise (key · < key ·)

theorem Ascending.lt (ascending : Ascending key items) {i j : Nat} (hij : i < j) (hj : j < items.size) :
    key items[i] < key items[j] :=
  List.pairwise_iff_getElem.1 ascending i j _ _ hij

theorem Ascending.le (ascending : Ascending key items) {i j : Nat} (hij : i ≤ j) (hj : j < items.size) :
    key items[i] ≤ key items[j] := by
  rcases Nat.eq_or_lt_of_le hij with rfl | hlt
  · exact Nat.le_refl _
  · exact Nat.le_of_lt (ascending.lt hlt hj)

/-- Where the keys ascend, an item is the only one of its key. -/
theorem eraseIdx_eq_filter {l : List β} (ascending : l.Pairwise (key · < key ·)) {i : Nat} (hi : i < l.length) :
    l.eraseIdx i = l.filter (key · ≠ key l[i]) := by
  induction l generalizing i with
  | nil => cases hi
  | cons x l ih =>
    obtain ⟨first, rest⟩ := List.pairwise_cons.1 ascending
    cases i with
    | zero =>
      rw [List.eraseIdx_cons_zero, List.getElem_cons_zero, List.filter_cons_of_neg (by simp)]
      refine (List.filter_eq_self.2 fun y hy => ?_).symm
      exact decide_eq_true (Nat.ne_of_gt (first y hy))
    | succ i =>
      have hi : i < l.length := Nat.lt_of_succ_lt_succ hi
      have other : key x ≠ key l[i] := Nat.ne_of_lt (first _ (List.getElem_mem hi))
      rw [List.eraseIdx_cons_succ, List.getElem_cons_succ, List.filter_cons, if_pos (decide_eq_true other),
        ih rest hi]

/-- In ascending order, the search ends at the item whose key is looked for. -/
theorem Ends.eq_of_ascending {i : Fin items.size} (ends : Ends (fun x => key x ≤ target) items 0 items.size i)
    (ascending : Ascending key items) {k : Nat} (hk : k < items.size) (same : key items[k] = target) : i.val = k := by
  rcases Nat.lt_trichotomy i.val k with earlier | rfl | later
  · have next : i.val + 1 < items.size := by omega
    have here := ascending.le (Nat.le_of_lt earlier) hk
    have there := ascending.le earlier hk
    rw [same] at here there
    exact absurd there (of_decide_eq_false (ends.after next (by omega) (decide_eq_true here)))
  · rfl
  · have holds := of_decide_eq_true (ends.before (by omega))
    have := ascending.lt later i.isLt
    simp only [Fin.getElem_fin] at holds
    omega

/-- In ascending order, an item is found by its key. -/
theorem position?_eq_some_iff (ascending : Ascending key items) {i : Nat} :
    position? key items target = some i ↔ ∃ hi : i < items.size, key items[i] = target := by
  refine ⟨getElem_of_position?, fun ⟨hi, hk⟩ => ?_⟩
  obtain ⟨j, found⟩ := exists_last? (p := fun x => key x ≤ target) (Nat.zero_lt_of_lt hi)
  obtain rfl := (ends_of_last? found).eq_of_ascending ascending hi hk
  simp only [position?, found]
  exact if_pos hk

theorem position?_map {γ : Type} (f : γ → β) (items : Array γ) :
    position? key (items.map f) target = position? (fun x => key (f x)) items target := by
  have ends := last?_map (p := fun x => key x ≤ target) f items
  simp only [position?]
  cases found : last? (fun x => decide (key x ≤ target)) (items.map f) <;>
    cases found' : last? (fun x => decide (key (f x) ≤ target)) items <;> simp_all [Fin.getElem_fin]

end Position

section PartitionPoint

variable {p : β → Bool} {items : Array β} {n : Nat} {b : β}

/-- What the search for the first item that fails `p` gives, of items in any order: `p` holds right before the place and
fails at it. -/
theorem partitionPoint_spec (p : β → Bool) (items : Array β) :
    partitionPoint p items ≤ items.size ∧
    (∀ n, partitionPoint p items = n + 1 → ∃ b, items[n]? = some b ∧ p b = true) ∧
    ∀ b, items[partitionPoint p items]? = some b → p b = false := by
  rw [partitionPoint]
  split
  · rename_i i found
    have ends := ends_of_last? found
    have here : items[i.val]? = some items[i] := Array.getElem?_eq_getElem i.isLt
    split
    · rename_i holds
      refine ⟨i.isLt, ?_, fun b hb => ?_⟩
      · rintro n h
        obtain rfl := Nat.succ.inj h
        exact ⟨_, here, holds⟩
      · obtain ⟨next, rfl⟩ := Array.getElem?_eq_some_iff.1 hb
        exact ends.after next (by omega) holds
    · rename_i fails
      have start : i.val = 0 := Nat.eq_zero_of_not_pos fun later => fails (ends.before later)
      refine ⟨Nat.le_of_lt i.isLt, fun n h => by omega, fun b hb => ?_⟩
      obtain rfl := Option.some.inj (here.symm.trans hb)
      exact Bool.eq_false_iff.2 fails
  · rename_i missing
    have empty := last?_eq_none_iff.1 missing
    refine ⟨Nat.zero_le _, fun n h => by omega, fun b hb => ?_⟩
    rw [Array.getElem?_eq_none (by omega)] at hb
    cases hb

/-- The place is the first one exactly if `p` fails there and wherever else the search looks for it. -/
theorem partitionPoint_eq_zero_iff :
    partitionPoint p items = 0 ↔ ∀ k ∈ 0 :: probes items.size, ∀ b, items[k]? = some b → p b = false := by
  rw [partitionPoint, List.forall_mem_cons]
  split
  · rename_i i found
    have pos : 0 < items.size := Nat.zero_lt_of_lt i.isLt
    have whole : 0 + items.size ≤ items.size := Nat.le_of_eq (Nat.zero_add _)
    have start : i.val = 0 ↔ ∀ k ∈ probes items.size, ∀ b, items[k]? = some b → p b = false := by
      obtain rfl := Option.some.inj (found.symm.trans (dif_pos pos))
      simpa only [Nat.zero_add] using halve_eq_base_iff (p := p) pos whole
    rw [← start]
    split
    · rename_i holds
      refine iff_of_false (by omega) fun ⟨first, same⟩ => ?_
      rw [← same] at first
      have fails := first items[i] (Array.getElem?_eq_getElem i.isLt)
      exact Bool.false_ne_true (fails.symm.trans holds)
    · rename_i fails
      refine ⟨fun same => ⟨fun b hb => ?_, same⟩, And.right⟩
      rw [← same] at hb
      obtain rfl := Option.some.inj ((Array.getElem?_eq_getElem i.isLt).symm.trans hb)
      exact Bool.eq_false_iff.2 fails
  · rename_i missing
    have empty := last?_eq_none_iff.1 missing
    have nothing (k : Nat) : items[k]? = none := Array.getElem?_eq_none (by omega)
    simp [nothing]

end PartitionPoint

end Danmaku.Search
