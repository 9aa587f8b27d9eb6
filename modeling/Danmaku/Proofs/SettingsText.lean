import Danmaku.Settings
import Danmaku.Proofs.NumeralValues
import Danmaku.Proofs.Records

/-! Settings of a file. Whatever the file leaves out and however great its numbers are, the settings that are read are
usable: the step is finite and positive, and the volumes are in `[0, 1]`. Usable settings are what sanitizing leaves as
it is, and all their numbers have numerals, so they come back from their text. -/

namespace Danmaku

/-! Fields that hold something of what is read. -/

namespace Fields

variable {σ τ α : Type}

/-- Whatever the fields are read from, what they read is in `P`. -/
def Yields (fs : Fields σ τ) (P : τ → Prop) : Prop := ∀ source t, fs.read source = .ok t → P t

theorem Yields.start {P : τ → Prop} {make : τ} (h : P make) : (start σ make).Yields P := by
  intro source t read
  obtain rfl := Except.ok.inj read
  exact h

theorem both_eq_ok {f : Except (Nat × Fault) (α → τ)} {a : Except (Nat × Fault) α} {t : τ} (h : both f a = .ok t) :
    ∃ g x, f = .ok g ∧ a = .ok x ∧ t = g x := by
  cases f with
  | error => cases a <;> cases h
  | ok g =>
      cases a with
      | error => cases h
      | ok x => exact ⟨g, x, rfl, rfl, (Except.ok.inj h).symm⟩

/-- A field holds what its codec reads, or what stands for it where it is left out. -/
theorem readField_eq_ok [Coded α] {index : Nat} {name : String} {absent : Option α} {source : Source} {x : α}
    (h : readField index name absent source = .ok x) :
    absent = some x ∨ ∃ j : Json.Input, Danmaku.decode j = .ok x := by
  unfold readField at h
  cases source with
  | members ms =>
      dsimp only at h
      split at h
      · cases absent with
        | none => cases h
        | some a => exact .inl (congrArg some (Except.ok.inj h))
      · split at h
        · cases h
        · rename_i decoded _
          obtain rfl := Except.ok.inj h
          exact .inr ⟨_, decoded⟩
        · cases h
  | items js =>
      dsimp only at h
      split at h
      · rename_i j _
        cases decoded : (Danmaku.decode j : Except Fault α) with
        | error f =>
            rw [decoded] at h
            cases h
        | ok a =>
            rw [decoded] at h
            obtain rfl := Except.ok.inj h
            exact .inr ⟨j, decoded⟩
      · cases absent with
        | none => cases h
        | some a => exact .inl (congrArg some (Except.ok.inj h))

/-- A field adds what its codec and its default both hold. -/
theorem Yields.optional [Coded α] {fs : Fields σ (α → τ)} {Q : α → Prop} {P : τ → Prop}
    (h : fs.Yields fun f => ∀ a, Q a → P (f a)) (name : String) {get : σ → α} {absent : α}
    (decoded : ∀ (j : Json.Input) a, Danmaku.decode j = .ok a → Q a) (default : Q absent) :
    (fs.optional name get absent).Yields P := by
  intro source t read
  obtain ⟨f, a, first, last, rfl⟩ := both_eq_ok read
  refine h source f first a ?_
  rcases readField_eq_ok last with left | ⟨j, found⟩
  · obtain rfl := Option.some.inj left
    exact default
  · exact decoded j a found

theorem Yields.decode {fs : Fields σ τ} {P : τ → Prop} (h : fs.Yields P) {j : Json.Input} {t : τ}
    (decoded : fs.decode j = .ok t) : P t := by
  cases j with
  | leaf => cases decoded
  | object ms =>
      unfold Fields.decode at decoded
      dsimp only at decoded
      split at decoded
      · rename_i read _
        obtain rfl := Except.ok.inj decoded
        exact h _ _ read
      · cases decoded
      · cases decoded
      · split at decoded <;> cases decoded
  | array js =>
      unfold Fields.decode at decoded
      dsimp only at decoded
      cases read : fs.read (.items js) with
      | error e =>
          rw [read] at decoded
          cases decoded
      | ok x =>
          rw [read] at decoded
          change (if fs.count < js.length then .error .extraItem else .ok x : Except Fault τ) = .ok t at decoded
          split at decoded
          · cases decoded
          · obtain rfl := Except.ok.inj decoded
            exact h _ _ read

end Fields

theorem load_eq_ok {α : Type} [Coded α] {text : String} {x : α} (h : load α text = .ok x) :
    decode (Json.read text).value = .ok x := by
  unfold load at h
  dsimp only at h
  split at h
  · split at h
    · rename_i decoded _
      rwa [Except.ok.inj h] at decoded
    · cases h
  · cases h

/-! Volumes. -/

instance : LawfulCoded Volumes where
  reads v := Fields.Reads.start _ v |>.optional (reads v.master) |>.optional (reads v.effects)
    |>.optional (reads v.muted) |>.record (by simp)

namespace Volumes

/-- Neither volume is a NaN. -/
def Numeric (v : Volumes) : Prop := v.master.isNaN = false ∧ v.effects.isNaN = false

/-- Both volumes are in `[0, 1]`. -/
def Within (v : Volumes) : Prop := (0 ≤ v.master ∧ v.master ≤ 1) ∧ 0 ≤ v.effects ∧ v.effects ≤ 1

theorem numeric_of_decode {j : Json.Input} {v : Volumes} (h : decode j = .ok v) : v.Numeric := by
  have yields : fields.Yields Numeric := by
    refine .optional (Q := fun _ => True) ?_ "muted" (fun _ _ _ => trivial) trivial
    refine .optional (Q := (·.isNaN = false)) ?_ "sfx_volume" (fun _ _ => Single.isNaN_of_decode) rfl
    refine .optional (Q := (·.isNaN = false)) ?_ "master_volume" (fun _ _ => Single.isNaN_of_decode) (by decide)
    exact .start fun master hm effects he _ _ => ⟨hm, he⟩
  exact yields.decode h

theorem within_bounded {v : Volumes} (h : v.Numeric) : v.bounded.Within :=
  ⟨Single.clamp_between h.1 rfl rfl (by decide), Single.clamp_between h.2 rfl rfl (by decide)⟩

theorem bounded_eq_self {v : Volumes} (h : v.Within) : v.bounded = v := by
  obtain ⟨⟨low, high⟩, low', high'⟩ := h
  rw [bounded, Single.clamp_eq_self low high, Single.clamp_eq_self low' high']

end Volumes

/-! Settings. -/

instance : LawfulCoded Settings where
  reads s := Fields.Reads.start _ s |>.optional (reads s.seed) |>.optional (reads s.step)
    |>.optional (reads s.volumes) |>.optional (reads s.logDefects) |>.record (by simp)

namespace Settings

/-- Settings that a run can use. -/
structure Usable (s : Settings) : Prop where
  step_isFinite : s.step.isFinite = true
  step_pos : 0 < s.step
  volumes_within : s.volumes.Within

theorem numeric_of_decode {j : Json.Input} {s : Settings} (h : decode j = .ok s) : s.volumes.Numeric := by
  have yields : fields.Yields (·.volumes.Numeric) := by
    refine .optional (Q := fun _ => True) ?_ "log_recoveries" (fun _ _ _ => trivial) trivial
    refine .optional (Q := Volumes.Numeric) ?_ "audio" (fun _ _ => Volumes.numeric_of_decode) ⟨by decide, by decide⟩
    refine .optional (Q := fun _ => True) ?_ "frame_dt" (fun _ _ _ => trivial) trivial
    refine .optional (Q := fun _ => True) ?_ "seed" (fun _ _ _ => trivial) trivial
    exact .start fun _ _ _ _ volumes hv _ _ => hv
  exact yields.decode h

theorem isUsableStep_iff {step : Single} : isUsableStep step = true ↔ step.isFinite = true ∧ 0 < step := by
  rw [isUsableStep, Bool.and_eq_true, decide_eq_true_eq]

/-- What is not usable is replaced by what is. -/
theorem usable_sanitized {s : Settings} (h : s.volumes.Numeric) : s.sanitized.Usable := by
  have step : isUsableStep s.sanitized.step = true := by
    unfold sanitized
    dsimp only
    split
    · assumption
    · decide
  obtain ⟨finite, pos⟩ := isUsableStep_iff.1 step
  exact ⟨finite, pos, Volumes.within_bounded h⟩

/-- What is usable is left as it is. -/
theorem sanitized_eq_self {s : Settings} (h : s.Usable) : s.sanitized = s := by
  rw [sanitized, if_pos (isUsableStep_iff.2 ⟨h.step_isFinite, h.step_pos⟩), Volumes.bounded_eq_self h.volumes_within]

theorem numbers_encode (s : Settings) : (encode s).numbers = [s.step, s.volumes.master, s.volumes.effects] := rfl

theorem Usable.isFinite {s : Settings} (h : s.Usable) : ∀ x ∈ (encode s).numbers, x.isFinite = true := by
  obtain ⟨⟨low, high⟩, low', high'⟩ := h.volumes_within
  simp only [numbers_encode, List.forall_mem_cons, List.not_mem_nil, false_imp_iff, implies_true, and_true]
  exact ⟨h.step_isFinite, Single.isFinite_of_between rfl rfl low high, Single.isFinite_of_between rfl rfl low' high'⟩

/-- Settings that are read are usable and sanitized, and are read from their own text, as long as a finite number in
them is read from its own. -/
theorem ofText_usable {text : String} {s : Settings} (accepted : ofText text = .ok s) :
    s.Usable ∧ s.sanitized = s ∧
    ((∀ x ∈ (encode s).numbers, x.isFinite = true → x.ReadsBack) → ofText (save s) = .ok s) := by
  obtain ⟨r, loaded, rfl⟩ : ∃ r, load Settings text = .ok r ∧ r.sanitized = s := by
    unfold ofText at accepted
    cases loaded : load Settings text with
    | error e =>
        rw [loaded] at accepted
        cases accepted
    | ok r =>
        rw [loaded] at accepted
        exact ⟨r, rfl, Except.ok.inj accepted⟩
  have usable := usable_sanitized (numeric_of_decode (load_eq_ok loaded))
  have kept := sanitized_eq_self usable
  refine ⟨usable, kept, fun shortest => ?_⟩
  have back := load_save_of_numbers r.sanitized fun x hx => shortest x hx (usable.isFinite x hx)
  rw [ofText, back]
  exact congrArg Except.ok kept

/-- A step that is too small for a single, a volume of minus zero, and one that is too great for a single. -/
def extremes : String := "\x7b\"frame_dt\": 1e-46, \"audio\": \x7b\"master_volume\": -0.0, \"sfx_volume\": 1e300\x7d\x7d"

theorem ofText_usable_extremes :
    let s : Settings := { volumes := { master := -0 } }
    ofText extremes = .ok s ∧ (∀ x ∈ (encode s).numbers, x.isFinite = true → x.ReadsBack) ∧
    s.Usable ∧ s.sanitized = s ∧ ofText (save s) = .ok s := by
  intro s
  have accepted : ofText extremes = .ok s := by
    have shown : (ofText extremes).toOption = some s := by decide +kernel
    cases read : ofText extremes with
    | error e =>
        rw [read] at shown
        cases shown
    | ok r =>
        rw [read] at shown
        exact congrArg Except.ok (Option.some.inj shown)
  have shortest : ∀ x ∈ (encode s).numbers, x.isFinite = true → x.ReadsBack := by decide +kernel
  obtain ⟨usable, kept, back⟩ := ofText_usable accepted
  exact ⟨accepted, shortest, usable, kept, back shortest⟩

end Settings

end Danmaku
