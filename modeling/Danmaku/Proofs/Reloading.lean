import Danmaku.Proofs.ProgramText
import Danmaku.Proofs.SingleOrder

/-! Programs that do not come back. A numeral is read in double precision and then rounded to a single, so one that
is finite as a double can be an infinity in the program. An infinity has no numeral of its own: it is written as
`null`, which is not read as a number. -/

namespace Danmaku

namespace Single

open Float.Model (UnpackedFloat Format)

/-- Of a number that is not finite, all bits of the exponent are set. -/
theorem unpackExponent_eq {x : Single} (h : x.isFinite = false) :
    @UnpackedFloat.unpackExponent Format.binary32 x.toBits.toBitVec = -1#_ := by
  rw [isFinite, decide_eq_false_iff_not, UInt32.lt_iff_toNat_lt, toNat_abs, Nat.not_lt] at h
  change 0x7f800000 ≤ x.toBits.toNat % 0x80000000 at h
  apply BitVec.eq_of_toNat_eq
  rw [toNat_unpackExponent]
  change _ = 0xff
  omega

/-- There is a numeral for finite numbers only. -/
theorem shortest?_eq_none {x : Single} (h : x.isFinite = false) (tie : Decimal.Tie) : x.shortest? tie = none := by
  let bits : BitVec Format.binary32.numBits := x.toBits.toBitVec
  let u := UnpackedFloat.unpack Format.binary32 bits
  change Decimal.shortest? Format.binary32 tie (Float32.Model.pack u).unpack = none
  have special : (∃ s, u = .infinity s) ∨ u = .notANumber := by
    have marked : u = if UnpackedFloat.unpackMantissa bits = 0 then
        .infinity (.ofBitVec (UnpackedFloat.unpackSign bits)) else .notANumber := if_pos (unpackExponent_eq h)
    rw [marked]
    split
    · exact .inl ⟨_, rfl⟩
    · exact .inr rfl
  rcases special with ⟨s, infinite⟩ | invalid
  · rw [infinite]
    cases s <;> rfl
  · rw [invalid]
    rfl

theorem readsBack_or_lost {x : Single} (h : x.isFinite = true → x.ReadsBack) :
    x.ReadsBack ∨ x.shortest? .even = none := by
  cases finite : x.isFinite with
  | true => exact .inl (h finite)
  | false => exact .inr (shortest?_eq_none finite .even)

end Single

namespace Program

/-- A program comes back from its text exactly if all its numbers are finite, as long as a finite number in it is read
from its own numeral. If one is not finite, the text does not load at all; it never loads as another program. -/
theorem load_save_iff_finite (p : Program)
    (shortest : ∀ x ∈ (encode p).numbers, x.isFinite = true → x.ReadsBack) :
    (load Program (save p) = .ok p ↔ ∀ x ∈ (encode p).numbers, x.isFinite = true) ∧
    ∀ q, load Program (save p) = .ok q → q = p := by
  have numbers : ∀ x ∈ (encode p).numbers, x.ReadsBack ∨ x.shortest? .even = none :=
    fun x hx => Single.readsBack_or_lost (shortest x hx)
  by_cases finite : ∀ x ∈ (encode p).numbers, x.isFinite = true
  · have loaded := load_save_of_numbers p fun x hx => shortest x hx (finite x hx)
    refine ⟨⟨fun _ => finite, fun _ => loaded⟩, fun q hq => ?_⟩
    exact Except.ok.inj (hq.symm.trans loaded)
  · obtain ⟨x, hx, infinite⟩ : ∃ x ∈ (encode p).numbers, x.isFinite = false := by simpa using finite
    obtain ⟨e, failed⟩ := load_save_of_lost p numbers ⟨x, hx, Single.shortest?_eq_none infinite .even⟩
    have never (q : Program) : load Program (save p) ≠ .ok q := by
      rw [failed]
      exact nofun
    exact ⟨⟨fun loaded => absurd loaded (never p), fun all => absurd all finite⟩,
      fun q hq => absurd hq (never q)⟩

/-- A wait without an end is saved as a text that does not load. -/
theorem load_save_iff_finite_wait :
    let p : Program := ⟨1, [.wait .infinity]⟩
    (∀ x ∈ (encode p).numbers, x.isFinite = true → x.ReadsBack) ∧
    (load Program (save p) = .ok p ↔ ∀ x ∈ (encode p).numbers, x.isFinite = true) ∧
    ∀ q, load Program (save p) = .ok q → q = p := by
  intro p
  have shortest : ∀ x ∈ (encode p).numbers, x.isFinite = true → x.ReadsBack := by decide +kernel
  exact ⟨shortest, load_save_iff_finite p shortest⟩

/-- A wait of a finite double that no single is near to. -/
def longWait : String :=
  "\x7b\"id\": 1, \"instructions\": [\x7b\"kind\": \x7b\"Wait\": \x7b\"tree\": \x7b\"nodes\": [" ++
  "\x7b\"mode\": \"Fixed\", \"default_value\": 1e39\x7d]\x7d\x7d\x7d\x7d]\x7d"

/-- The text loads, and what it loads as is saved as a text that does not. -/
theorem longWait_saved_is_not_loaded :
    ∃ p, load Program longWait = .ok p ∧ ∃ e, load Program (save p) = .error e := by
  have shown : ((load Program longWait).toOption.map fun p : Program =>
      decide ((∀ x ∈ (encode p).numbers, x.isFinite = true → x.ReadsBack) ∧
        (encode p).numbers.any (!·.isFinite) = true)) = some true := by
    decide +kernel
  obtain ⟨p, hp, shown⟩ := Option.map_eq_some_iff.1 shown
  obtain ⟨shortest, infinite⟩ := of_decide_eq_true shown
  obtain ⟨x, hx, infinite⟩ := List.any_eq_true.1 infinite
  rw [Bool.not_eq_true'] at infinite
  refine ⟨p, ?_, load_save_of_lost p (fun x hx => Single.readsBack_or_lost (shortest x hx))
    ⟨x, hx, Single.shortest?_eq_none infinite .even⟩⟩
  cases loaded : load Program longWait with
  | ok q =>
      rw [loaded] at hp
      exact congrArg Except.ok (Option.some.inj hp)
  | error e =>
      rw [loaded] at hp
      cases hp

end Program

end Danmaku
