/-! Values under keys, in the order in which the keys were first put. -/

namespace Danmaku.Entries

variable {κ ν κ' ν' : Type} [DecidableEq κ]

/-- Puts a value under a key, in the place of the value that is there or else at the end. -/
def put (key : κ) (value : ν) : List (κ × ν) → List (κ × ν)
  | [] => [(key, value)]
  | e :: es => if e.1 = key then (key, value) :: es else e :: put key value es

theorem mem_put {key : κ} {value : ν} {es : List (κ × ν)} {e : κ × ν} (h : e ∈ put key value es) :
    e = (key, value) ∨ e ∈ es := by
  induction es with
  | nil => exact Or.inl (List.mem_singleton.1 h)
  | cons e' es ih =>
    rw [put] at h
    split at h
    · exact (List.mem_cons.1 h).imp_right (List.mem_cons_of_mem _)
    · rcases List.mem_cons.1 h with rfl | h
      · exact Or.inr List.mem_cons_self
      · exact (ih h).imp_right (List.mem_cons_of_mem _)

section Map

variable (f : κ → κ') (g : ν → ν') (key : κ) {es : List (κ × ν)}

/-- The key stays apart from the others. -/
theorem put_map [DecidableEq κ'] (apart : ∀ e ∈ es, f e.1 = f key → e.1 = key) (value : ν) :
    put (f key) (g value) (es.map fun e => (f e.1, g e.2)) = (put key value es).map fun e => (f e.1, g e.2) := by
  induction es with
  | nil => rfl
  | cons e es ih =>
    obtain ⟨head, tail⟩ := List.forall_mem_cons.1 apart
    have same : f e.1 = f key ↔ e.1 = key := ⟨head, congrArg f⟩
    simp only [List.map_cons, put, same, ih tail]
    split
    · rfl
    · rfl

omit [DecidableEq κ] in
theorem lookup_map [BEq κ] [LawfulBEq κ] [BEq κ'] [LawfulBEq κ']
    (apart : ∀ e ∈ es, f e.1 = f key → e.1 = key) :
    (es.map fun e => (f e.1, g e.2)).lookup (f key) = (es.lookup key).map g := by
  induction es with
  | nil => rfl
  | cons e es ih =>
    obtain ⟨head, tail⟩ := List.forall_mem_cons.1 apart
    rw [List.map_cons, List.lookup_cons, List.lookup_cons, ih tail]
    by_cases same : e.1 = key
    · rw [beq_iff_eq.2 same.symm, beq_iff_eq.2 (congrArg f same.symm)]
      rfl
    · rw [beq_false_of_ne (Ne.symm same), beq_false_of_ne fun h => same (head h.symm)]

end Map

theorem lookup_put [BEq κ] [LawfulBEq κ] (key other : κ) (value : ν) (es : List (κ × ν)) :
    (put key value es).lookup other = if other = key then some value else es.lookup other := by
  induction es with
  | nil => by_cases h : other = key <;> simp [put, List.lookup_cons, h, beq_false_of_ne]
  | cons e es ih =>
    obtain ⟨k, v⟩ := e
    by_cases h : k = key
    · subst h
      by_cases h' : other = k <;> simp [put, List.lookup_cons, h', beq_false_of_ne]
    · by_cases h' : other = k
      · simp [put, h, h']
      · simp [put, List.lookup_cons, h, h', ih, beq_false_of_ne]

end Danmaku.Entries
