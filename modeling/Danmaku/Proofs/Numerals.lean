import Danmaku.Json.Token
import Mathlib.Data.List.TakeWhile

/-! Numerals as words. Integers that fit read back from their digits. A numeral that reads as anything is a word:
none of its characters ends one. -/

namespace Danmaku.Json

/-- All characters continue a word. -/
def IsWord (cs : List Char) : Prop := ∀ c ∈ cs, Token.isWordChar c = true

instance (cs : List Char) : Decidable (IsWord cs) := List.decidableBAll _ cs

namespace IsWord

variable {c : Char} {cs ds rest : List Char}

theorem cons (hc : Token.isWordChar c = true) (h : IsWord cs) : IsWord (c :: cs) :=
  List.forall_mem_cons.2 ⟨hc, h⟩

theorem of_isDigit (h : c.isDigit = true) : Token.isWordChar c = true := by
  simp [Token.isWordChar, Char.isAlphanum, h]

theorem of_digits? (h : digits? cs = some (ds, rest)) (hrest : IsWord rest) : IsWord cs := by
  unfold digits? at h
  split at h
  · cases h
  · obtain ⟨rfl, rfl⟩ := Prod.mk.inj (Option.some.inj h)
    rw [← List.takeWhile_append_dropWhile (p := Char.isDigit) (l := cs)]
    intro c hc
    rcases List.mem_append.1 hc with hc | hc
    · exact of_isDigit (List.mem_takeWhile_imp hc)
    · exact hrest c hc

theorem ne_nil_of_digits? (h : digits? cs = some (ds, rest)) : cs ≠ [] := by
  rintro rfl
  cases h

theorem digits?_of_whole? (h : whole? cs = some (ds, rest)) : digits? cs = some (ds, rest) := by
  unfold whole? at h
  split at h
  · cases h
  · exact h

theorem of_fraction? (h : fraction? cs = some (ds, rest)) (hrest : IsWord rest) : IsWord cs := by
  unfold fraction? at h
  split at h
  · exact cons rfl (of_digits? h hrest)
  · obtain ⟨-, rfl⟩ := Prod.mk.inj (Option.some.inj h)
    exact hrest

theorem of_exponent? {e : Int} (h : exponent? cs = some e) : IsWord cs := by
  have nil : IsWord [] := fun _ hc => absurd hc List.not_mem_nil
  unfold exponent? at h
  split at h
  · exact nil
  · rename_i letter cs
    split at h
    · rename_i he
      have hletter : Token.isWordChar letter = true := by rcases he with rfl | rfl <;> rfl
      refine cons hletter ?_
      dsimp only at h
      split at h
      · rename_i hds
        have digits := of_digits? hds nil
        split at digits
        · exact cons rfl digits
        · exact cons rfl digits
        · exact digits
      · cases h
    · cases h

theorem of_unsigned? {negative : Bool} {a : Atom} (h : unsigned? negative cs = some a) : IsWord cs ∧ cs ≠ [] := by
  unfold unsigned? at h
  obtain ⟨⟨whole, rest⟩, hwhole, h⟩ := Option.bind_eq_some_iff.1 h
  have hwhole := digits?_of_whole? hwhole
  refine ⟨of_digits? hwhole ?_, ne_nil_of_digits? hwhole⟩
  dsimp only at h
  generalize (if negative = true then -(natOfDigits whole : Int) else natOfDigits whole) = n at h
  split at h
  · rename_i last
    rw [List.isEmpty_iff.1 last.1]
    exact fun _ hc => absurd hc List.not_mem_nil
  · obtain ⟨⟨fraction, rest'⟩, hfraction, h⟩ := Option.bind_eq_some_iff.1 h
    obtain ⟨e, he, -⟩ := Option.bind_eq_some_iff.1 h
    exact of_fraction? hfraction (of_exponent? he)

theorem of_numeral? {a : Atom} (h : numeral? cs = some a) : IsWord cs ∧ cs ≠ [] := by
  unfold numeral? at h
  split at h
  · exact ⟨cons rfl (of_unsigned? h).1, List.cons_ne_nil _ _⟩
  · exact of_unsigned? h

end IsWord

theorem ofWord?_of_numeral? {cs : List Char} {a : Atom} (h : numeral? cs = some a) : ofWord? cs = some a := by
  have other (word : List Char) (hword : numeral? word = none) : cs ≠ word := by
    rintro rfl
    rw [h] at hword
    cases hword
  rw [ofWord?, if_neg (other _ (by decide)), if_neg (other _ (by decide)), if_neg (other _ (by decide)), h]

theorem natOfDigits_toDigits (n : Nat) : natOfDigits (Nat.toDigits 10 n) = n := by
  have same : natOfDigits (Nat.toDigits 10 n) = Nat.ofDigitChars 10 (Nat.toDigits 10 n) 0 := by
    simp only [natOfDigits, Nat.ofDigitChars, Decimal.digitOf, Nat.mul_comm]
  rw [same, Nat.ofDigitChars_ten_toDigits]

theorem isDigit_toDigits (n : Nat) : ∀ c ∈ Nat.toDigits 10 n, c.isDigit = true := fun _ hc =>
  Nat.isDigit_of_mem_toDigits (by decide) (by decide) hc

/-- There is no zero before other digits. -/
theorem toDigits_ne_zero_cons_cons (n : Nat) (c : Char) (cs : List Char) : Nat.toDigits 10 n ≠ '0' :: c :: cs := by
  suffices first : ∀ n, 0 < n → ∀ ds, Nat.toDigits 10 n ≠ '0' :: ds by
    rcases Nat.eq_zero_or_pos n with rfl | hn
    · simp
    · exact first n hn (c :: cs)
  intro n
  induction n using Nat.strongRecOn with
  | ind n ih =>
      intro hn ds h
      rw [Nat.toDigits_eq_if (by decide)] at h
      split at h
      · have := Nat.digitChar_eq_zero.1 (List.cons.inj h).1
        omega
      · rename_i hge
        cases hd : Nat.toDigits 10 (n / 10) with
        | nil => exact Nat.toDigits_ne_nil hd
        | cons d ds' =>
            rw [hd] at h
            obtain ⟨rfl, -⟩ := List.cons.inj h
            exact ih (n / 10) (by omega) (by omega) ds' hd

theorem whole?_toDigits (n : Nat) : whole? (Nat.toDigits 10 n) = some (Nat.toDigits 10 n, []) := by
  have digits : digits? (Nat.toDigits 10 n) = some (Nat.toDigits 10 n, []) := by
    have all := isDigit_toDigits n
    rw [digits?, List.takeWhile_eq_self_iff.2 all, List.dropWhile_eq_nil_iff.2 all]
    split
    · rename_i hnil
      exact absurd hnil Nat.toDigits_ne_nil
    · rfl
  unfold whole?
  rw [digits]
  split
  · rename_i h
    exact absurd (Prod.mk.inj (Option.some.inj h)).1 (toDigits_ne_zero_cons_cons n _ _)
  · rfl

theorem unsigned?_toDigits {negative : Bool} {n : Nat} (h : fits (if negative then -n else n) = true)
    (zero : ¬(negative = true ∧ n = 0)) :
    unsigned? negative (Nat.toDigits 10 n) = some (.value (.int (if negative then -n else n))) := by
  rw [unsigned?, whole?_toDigits]
  simp only [Option.bind_eq_bind, Option.bind_some, natOfDigits_toDigits]
  rw [if_pos]
  · rfl
  · refine ⟨rfl, h, fun ⟨hneg, hn⟩ => zero ⟨hneg, ?_⟩⟩
    rw [if_pos hneg] at hn
    omega

/-- An integer that fits stays an integer. -/
theorem numeral?_intChars {n : Int} (h : fits n = true) : numeral? (intChars n) = some (.value (.int n)) := by
  unfold intChars
  split
  · rename_i negative
    have value : -(n.natAbs : Int) = n := by omega
    have unsigned := @unsigned?_toDigits true n.natAbs
    simp only [if_true, value] at unsigned
    exact unsigned h (by omega)
  · rename_i positive
    have value : (n.natAbs : Int) = n := by omega
    have unsigned := @unsigned?_toDigits false n.natAbs
    simp only [Bool.false_eq_true, if_false, value] at unsigned
    rw [List.nil_append]
    unfold numeral?
    split
    · rename_i hminus
      have digit := isDigit_toDigits n.natAbs '-' (by rw [hminus]; exact List.mem_cons_self)
      cases digit
    · exact unsigned h (by simp)

end Danmaku.Json
