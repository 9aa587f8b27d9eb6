import Danmaku.Json.Quoted

/-! Quoted text reads back. Of each character, its escape alone is read, whatever follows. -/

namespace Danmaku.Quoted

/-- The hexadecimal digits of a control character. -/
theorem unit?_of_control : ∀ n < 32,
    unit? '0' '0' (Nat.digitChar (n / 16)) (Nat.digitChar (n % 16)) = some n := by
  decide

theorem read?_backslash {cs rest : List Char} {c : Option Char} (h : escaped? cs = some (c, rest)) :
    read? ('\\' :: cs) = (read? rest).map fun r => (cons? c r.1, r.2) := by
  rw [read?]
  split
  · rename_i h'
    obtain ⟨rfl, rfl⟩ := Prod.mk.inj (Option.some.inj (h.symm.trans h'))
    rfl
  · rename_i h'
    rw [h] at h'
    cases h'

theorem escaped?_of_control {c : Char} (control : c < ' ') (cs : List Char) :
    escaped? ('u' :: '0' :: '0' :: Nat.digitChar (c.toNat / 16) :: Nat.digitChar (c.toNat % 16) :: cs) =
      some (some c, cs) := by
  have small : c.toNat < 32 := Char.lt_def.1 control
  have high : isHigh c.toNat = false := by
    simp only [isHigh, Bool.and_eq_false_iff, decide_eq_false_iff_not]
    omega
  have low : isLow c.toNat = false := by
    simp only [isLow, Bool.and_eq_false_iff, decide_eq_false_iff_not]
    omega
  simp [escaped?, unit?_of_control c.toNat small, high, low]

theorem read?_escape (c : Char) (cs : List Char) :
    read? (escape c ++ cs) = (read? cs).map fun r => (cons? (some c) r.1, r.2) := by
  unfold escape
  split
  case h_8 hquote hbackslash _ _ _ _ _ =>
    split
    · rename_i control
      exact read?_backslash (escaped?_of_control control cs)
    · rename_i visible
      rw [List.singleton_append, read?.eq_4 _ _ hquote hbackslash]
      exact if_neg visible
  all_goals exact read?_backslash rfl

theorem read?_flatMap_escape (cs rest : List Char) :
    read? (cs.flatMap escape ++ '"' :: rest) = some (some cs, rest) := by
  induction cs with
  | nil => rw [List.flatMap_nil, List.nil_append, read?]
  | cons c cs ih =>
      rw [List.flatMap_cons, List.append_assoc, read?_escape, ih]
      rfl

end Danmaku.Quoted
