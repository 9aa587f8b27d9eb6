import Danmaku.Proofs.SettingsText
import Danmaku.Proofs.SingleQuotients

/-! What is heard of a queue of cues, over every sequence of calls from outside. The calls say which volumes are asked
for, and which cues are played at them. The queue keeps a played cue unless its volume is zero or less, or it is none,
and gives out what it has kept in order and once. Volumes that are numbers are clamped into `[0, 1]`, and their product
stays there. A NaN passes the clamp, and it passes the test too, because it is not zero or less: as long as one is asked
for, the queue keeps cues that have no volume. -/

namespace Danmaku

namespace Single

variable {x y : Single}

/-- A product of numbers in `[0, 1]` is one, also where it is rounded. -/
theorem mul_within (hx : 0 ≤ x ∧ x ≤ 1) (hy : 0 ≤ y ∧ y ≤ 1) : 0 ≤ x * y ∧ x * y ≤ 1 := by
  have value_within {z : Single} (hz : 0 ≤ z ∧ z ≤ 1) : z.isFinite = true ∧ 0 ≤ z.value ∧ z.value ≤ 1 := by
    have finite := isFinite_of_between rfl rfl hz.1 hz.2
    refine ⟨finite, ?_, ?_⟩
    · exact value_zero ▸ (le_iff_value_le rfl finite).1 hz.1
    · exact value_one ▸ (le_iff_value_le finite rfl).1 hz.2
  obtain ⟨finite_x, zero_le_x, x_le⟩ := value_within hx
  obtain ⟨finite_y, zero_le_y, y_le⟩ := value_within hy
  have zero_le : 0 ≤ x.value * y.value := mul_nonneg zero_le_x zero_le_y
  have le_one : x.value * y.value ≤ 1 := mul_le_one₀ x_le zero_le_y y_le
  have small : |x.value * y.value| ≤ 2 ^ (127 : ℤ) := by
    rw [abs_of_nonneg zero_le]
    exact le_one.trans (by norm_num)
  have rounds := rounds_value_mul finite_x finite_y small
  have finite := rounds.isFinite
  rw [le_iff_value_le rfl finite, le_iff_value_le finite rfl]
  exact ⟨rounds.ge (onGrid_value 0) (value_zero ▸ zero_le), rounds.le (onGrid_value 1) (value_one ▸ le_one)⟩

/-- Clamping leaves a NaN. -/
theorem clamp_of_isNaN (h : x.isNaN = true) (lo hi : Single) : x.clamp lo hi = x := by
  have not_below : ¬x < lo := fun lt => by
    rw [(isNaN_of_le (le_of_lt lt)).1] at h
    cases h
  have not_above : ¬hi < x := fun lt => by
    rw [(isNaN_of_le (le_of_lt lt)).2] at h
    cases h
  rw [clamp, if_neg not_below, if_neg not_above]

end Single

namespace Volumes

variable {v : Volumes}

/-- Volumes that are numbers make one, within `[0, 1]`. -/
theorem effective_within (h : v.Numeric) : 0 ≤ v.bounded.effective ∧ v.bounded.effective ≤ 1 := by
  obtain ⟨master, effects⟩ := within_bounded h
  unfold effective
  split
  · decide
  · exact Single.mul_within master effects

/-- Unless they are muted, a NaN on either side leaves no volume. -/
theorem isNaN_effective (muted : v.muted = false) (nan : ¬v.Numeric) : v.bounded.effective.isNaN = true := by
  have product : v.bounded.effective = v.master.clamp 0 1 * v.effects.clamp 0 1 :=
    if_neg (by simp [bounded, muted])
  rw [Numeric, not_and_or, Bool.not_eq_false, Bool.not_eq_false] at nan
  rw [product]
  refine Single.isNaN_combine (nan.imp (fun nan => ?_) fun nan => ?_)
  · rwa [Single.clamp_of_isNaN nan]
  · rwa [Single.clamp_of_isNaN nan]

/-- The effective volume is in `[0, 1]`, or a NaN that was asked for. -/
theorem effective_cases (v : Volumes) :
    (0 ≤ v.bounded.effective ∧ v.bounded.effective ≤ 1) ∧ (v.muted = true ∨ v.Numeric) ∨
      v.bounded.effective.isNaN = true ∧ v.muted = false ∧ ¬v.Numeric := by
  cases muted : v.muted with
  | true =>
      have silent : v.bounded.effective = 0 := if_pos muted
      rw [silent]
      exact Or.inl ⟨by decide, Or.inl rfl⟩
  | false =>
      by_cases number : v.Numeric
      · exact Or.inl ⟨effective_within number, Or.inr number⟩
      · exact Or.inr ⟨isNaN_effective muted number, rfl, number⟩

theorem isNaN_effective_iff : v.bounded.effective.isNaN = true ↔ v.muted = false ∧ ¬v.Numeric := by
  rcases v.effective_cases with ⟨within, sound⟩ | ⟨nan, unmuted, other⟩
  · rw [(Single.isNaN_of_le within.1).2]
    refine iff_of_false Bool.false_ne_true fun ⟨unmuted, other⟩ => ?_
    rcases sound with muted | number
    · rw [unmuted] at muted
      cases muted
    · exact other number
  · exact iff_of_true nan ⟨unmuted, other⟩

end Volumes

/-- A call from outside to a queue of cues. -/
inductive CueCall where
  | setMaster (volume : Single)
  | setEffects (volume : Single)
  | setMuted (muted : Bool)
  | play (asset : AssetId)
  | drain

/-- The call does not ask for a NaN. -/
def CueCall.Numeric : CueCall → Prop
  | setMaster volume | setEffects volume => volume.isNaN = false
  | setMuted _ | play _ | drain => True

namespace Volumes

/-- The volumes that are asked for after a call. -/
def call (v : Volumes) : CueCall → Volumes
  | .setMaster volume => { v with master := volume }
  | .setEffects volume => { v with effects := volume }
  | .setMuted muted => { v with muted }
  | .play _ | .drain => v

/-- The volumes that are asked for after calls, in order. -/
def after (v : Volumes) (calls : List CueCall) : Volumes := calls.foldl call v

/-- The cues that a call plays, at the volume of its time, whether or not they can be heard. -/
def plays (v : Volumes) : CueCall → List Cue
  | .play asset => [⟨asset, v.bounded.effective⟩]
  | _ => []

/-- The cues that calls play, in order. -/
def played (v : Volumes) : List CueCall → List Cue
  | [] => []
  | c :: calls => v.plays c ++ (v.call c).played calls

theorem Numeric.call {v : Volumes} {c : CueCall} (h : v.Numeric) (hc : c.Numeric) : (v.call c).Numeric := by
  cases c with
  | setMaster volume => exact ⟨hc, h.2⟩
  | setEffects volume => exact ⟨h.1, hc⟩
  | _ => exact h

theorem Numeric.after {v : Volumes} {calls : List CueCall} (h : v.Numeric) (hc : ∀ c ∈ calls, c.Numeric) :
    (v.after calls).Numeric := by
  induction calls generalizing v with
  | nil => exact h
  | cons c calls ih =>
      exact ih (h.call (hc c List.mem_cons_self)) fun d hd => hc d (List.mem_cons_of_mem _ hd)

/-- A cue that is played comes from one of the calls, and has the volume of its time. -/
theorem mem_played_iff {v : Volumes} {calls : List CueCall} {cue : Cue} :
    cue ∈ v.played calls ↔ ∃ earlier asset later, calls = earlier ++ .play asset :: later ∧
      cue = ⟨asset, (v.after earlier).bounded.effective⟩ := by
  induction calls generalizing v with
  | nil =>
      refine iff_of_false List.not_mem_nil ?_
      rintro ⟨earlier, asset, later, split, -⟩
      exact List.append_ne_nil_of_right_ne_nil _ (List.cons_ne_nil _ _) split.symm
  | cons c calls ih =>
      rw [played, List.mem_append, ih]
      constructor
      · rintro (now | ⟨earlier, asset, later, rfl, rfl⟩)
        · cases c with
          | play asset => exact ⟨[], asset, calls, rfl, List.mem_singleton.1 now⟩
          | _ => exact absurd now List.not_mem_nil
        · exact ⟨c :: earlier, asset, later, rfl, rfl⟩
      · rintro ⟨earlier, asset, later, split, rfl⟩
        cases earlier with
        | nil =>
            obtain ⟨rfl, -⟩ := List.cons.inj split
            exact Or.inl (List.mem_singleton.2 rfl)
        | cons d earlier =>
            obtain ⟨rfl, rfl⟩ := List.cons.inj split
            exact Or.inr ⟨earlier, asset, later, rfl, rfl⟩

end Volumes

namespace Cue

/-- Some sound, at a volume above zero. -/
def isAudible (c : Cue) : Bool := !c.asset.isNone && 0 < c.volume

/-- Some sound, at a volume that is a NaN. -/
def isUndefined (c : Cue) : Bool := !c.asset.isNone && c.volume.isNaN

def isKept (c : Cue) : Bool := c.isAudible || c.isUndefined

/-- A volume that is not zero or less is above zero, or a NaN. -/
theorem isKept_iff (c : Cue) : c.isKept = true ↔ ¬(c.volume ≤ 0 ∨ c.asset.isNone = true) := by
  have volume : ¬c.volume ≤ 0 ↔ 0 < c.volume ∨ c.volume.isNaN = true := by
    cases number : c.volume.isNaN with
    | true =>
        refine iff_of_true (fun le => ?_) (Or.inr rfl)
        rw [(Single.isNaN_of_le le).1] at number
        cases number
    | false => rw [Single.lt_iff_not_le rfl number, or_iff_left Bool.false_ne_true]
  rw [not_or, volume, isKept, isAudible, isUndefined, ← Bool.and_or_distrib_left, Bool.and_eq_true, Bool.or_eq_true,
    decide_eq_true_eq, Bool.not_eq_true, Bool.not_eq_true', and_comm]

theorem isUndefined_iff (c : Cue) : c.isUndefined = true ↔ c.asset.isNone = false ∧ c.volume.isNaN = true := by
  rw [isUndefined, Bool.and_eq_true, Bool.not_eq_true']

end Cue

/-- A queue with all the cues that were drained from it, in order. -/
structure Mixing where
  queue : CueQueue
  drained : List Cue := []

namespace Mixing

def ofVolumes (v : Volumes) : Mixing := { queue := .ofVolumes v }

def call (m : Mixing) : CueCall → Mixing
  | .setMaster volume => { m with queue := m.queue.setMaster volume }
  | .setEffects volume => { m with queue := m.queue.setEffects volume }
  | .setMuted muted => { m with queue := m.queue.setMuted muted }
  | .play asset => { m with queue := m.queue.play asset }
  | .drain => { queue := m.queue.drain.2, drained := m.drained ++ m.queue.drain.1.toList }

def after (m : Mixing) (calls : List CueCall) : Mixing := calls.foldl call m

/-- All that was drained, and then what is pending. -/
def cues (m : Mixing) : List Cue := m.drained ++ m.queue.pending.toList

variable {m : Mixing} {v : Volumes}

/-- The volumes of the queue are those that are asked for, clamped. -/
theorem volumes_call (h : m.queue.volumes = v.bounded) (c : CueCall) :
    (m.call c).queue.volumes = (v.call c).bounded := by
  cases c with
  | play asset =>
      simp only [call, CueQueue.play]
      split <;> exact h
  | drain => exact h
  | _ =>
      simp only [call, CueQueue.setMaster, CueQueue.setEffects, CueQueue.setMuted, h]
      rfl

/-- A call adds the cue that it plays, if the cue is kept, and loses none. -/
theorem cues_call (h : m.queue.volumes = v.bounded) (c : CueCall) :
    (m.call c).cues = m.cues ++ (v.plays c).filter Cue.isKept := by
  cases c with
  | play asset =>
      have kept := Cue.isKept_iff ⟨asset, v.bounded.effective⟩
      simp only [call, cues, CueQueue.play, h, Volumes.plays]
      by_cases dropped : v.bounded.effective ≤ 0 ∨ asset.isNone = true
      · rw [if_pos dropped, List.filter_cons_of_neg fun keeps => kept.1 keeps dropped]
        exact (List.append_nil _).symm
      · rw [if_neg dropped, List.filter_cons_of_pos (kept.2 dropped), Array.toList_push, ← List.append_assoc]
        rfl
  | drain => simp [call, cues, CueQueue.drain, Volumes.plays]
  | _ => exact (List.append_nil _).symm

theorem volumes_after (h : m.queue.volumes = v.bounded) (calls : List CueCall) :
    (m.after calls).queue.volumes = (v.after calls).bounded := by
  induction calls generalizing m v with
  | nil => exact h
  | cons c calls ih => exact ih (volumes_call h c)

theorem cues_after (h : m.queue.volumes = v.bounded) (calls : List CueCall) :
    (m.after calls).cues = m.cues ++ (v.played calls).filter Cue.isKept := by
  induction calls generalizing m v with
  | nil => exact (List.append_nil _).symm
  | cons c calls ih =>
      calc ((m.call c).after calls).cues
          = (m.call c).cues ++ ((v.call c).played calls).filter Cue.isKept :=
            ih (volumes_call h c)
        _ = m.cues ++ (v.played (c :: calls)).filter Cue.isKept := by
            rw [cues_call h, List.append_assoc, ← List.filter_append]
            rfl

theorem mem_cues_of_filter {c : Cue} {calls : List CueCall} (h : c ∈ (v.played calls).filter Cue.isKept) :
    c.asset.isNone = false ∧ (c.volume.isNaN = true ∨ 0 < c.volume ∧ c.volume ≤ 1) := by
  obtain ⟨played, kept⟩ := List.mem_filter.1 h
  obtain ⟨positive, sound⟩ := not_or.1 ((Cue.isKept_iff c).1 kept)
  refine ⟨Bool.eq_false_iff.2 sound, ?_⟩
  obtain ⟨earlier, asset, later, -, rfl⟩ := Volumes.mem_played_iff.1 played
  rcases (v.after earlier).effective_cases with ⟨within, -⟩ | ⟨nan, -⟩
  · exact Or.inr ⟨(Single.lt_iff_not_le rfl (Single.isNaN_of_le within.1).2).2 positive, within.2⟩
  · exact Or.inl nan

/-- What is kept is what can be heard, exactly if no sound is played while there is no volume. -/
theorem filter_isKept_eq_iff (v : Volumes) (calls : List CueCall) :
    (v.played calls).filter Cue.isKept = (v.played calls).filter Cue.isAudible ↔
      ∀ earlier asset later, calls = earlier ++ .play asset :: later → asset.isNone = false →
        (v.after earlier).muted = false → (v.after earlier).Numeric := by
  constructor
  · intro same earlier asset later split sound unmuted
    by_contra other
    have nan := Volumes.isNaN_effective unmuted other
    let cue : Cue := ⟨asset, (v.after earlier).bounded.effective⟩
    have played : cue ∈ v.played calls := Volumes.mem_played_iff.2 ⟨earlier, asset, later, split, rfl⟩
    have kept : cue.isKept = true := by
      rw [Cue.isKept, (Cue.isUndefined_iff cue).2 ⟨sound, nan⟩, Bool.or_true]
    have audible : cue.isAudible = true := by
      have mem : cue ∈ (v.played calls).filter Cue.isAudible := same ▸ List.mem_filter.2 ⟨played, kept⟩
      exact (List.mem_filter.1 mem).2
    have positive : 0 < cue.volume := of_decide_eq_true (Bool.and_eq_true_iff.1 audible).2
    rw [(Single.isNaN_of_le (Single.le_of_lt positive)).2] at nan
    cases nan
  · intro numeric
    refine List.filter_congr fun cue played => ?_
    have defined : cue.isUndefined = false := by
      rw [← Bool.not_eq_true, Cue.isUndefined_iff]
      rintro ⟨sound, nan⟩
      obtain ⟨earlier, asset, later, split, rfl⟩ := Volumes.mem_played_iff.1 played
      obtain ⟨unmuted, other⟩ := Volumes.isNaN_effective_iff.1 nan
      exact other (numeric earlier asset later split sound unmuted)
    rw [Cue.isKept, defined, Bool.or_false]

/-- The cues that are heard, over every sequence of calls to a queue that is made with any volumes; a queue that is made
without any has the same volumes as one that is made with the default ones. All that was drained, followed by what is
pending, are the played cues that are kept, in the order of the calls. Each is some sound, at a volume above zero and up
to one, or at a NaN. The effective volume is a NaN exactly if the queue is not muted and a NaN was asked for last on
either side, and is in `[0, 1]` otherwise. So the kept cues are the audible ones exactly if no sound is played at such a
time. As long as only numbers are asked for, the audible cues are kept, no other, and all volumes are in `[0, 1]`. -/
theorem heard_after (v : Volumes) (calls : List CueCall) :
    let m := (ofVolumes v).after calls
    let volume := m.queue.volumes.effective
    let cues := m.drained ++ m.queue.pending.toList
    ({} : CueQueue) = .ofVolumes {} ∧
    cues = (v.played calls).filter Cue.isKept ∧
    (∀ c ∈ cues, c.asset.isNone = false ∧ (c.volume.isNaN = true ∨ 0 < c.volume ∧ c.volume ≤ 1)) ∧
    (volume.isNaN = true ↔ (v.after calls).muted = false ∧
      ((v.after calls).master.isNaN = true ∨ (v.after calls).effects.isNaN = true)) ∧
    (volume.isNaN = true ∨ 0 ≤ volume ∧ volume ≤ 1) ∧
    (cues = (v.played calls).filter Cue.isAudible ↔
      ∀ earlier asset later, calls = earlier ++ .play asset :: later → asset.isNone = false →
        (v.after earlier).muted = false → (v.after earlier).Numeric) ∧
    (v.Numeric → (∀ c ∈ calls, c.Numeric) →
      cues = (v.played calls).filter Cue.isAudible ∧
      (∀ c ∈ cues, c.asset.isNone = false ∧ 0 < c.volume ∧ c.volume ≤ 1) ∧ 0 ≤ volume ∧ volume ≤ 1) := by
  intro m volume cues
  have volume_eq : volume = (v.after calls).bounded.effective :=
    congrArg Volumes.effective (volumes_after (m := ofVolumes v) (v := v) rfl calls)
  have cues_eq : cues = (v.played calls).filter Cue.isKept := cues_after (m := ofVolumes v) (v := v) rfl calls
  have heard : ∀ c ∈ cues, c.asset.isNone = false ∧ (c.volume.isNaN = true ∨ 0 < c.volume ∧ c.volume ≤ 1) :=
    fun c hc => mem_cues_of_filter (cues_eq ▸ hc)
  have kept_iff := filter_isKept_eq_iff v calls
  rw [← cues_eq] at kept_iff
  refine ⟨by decide, cues_eq, heard, ?_, ?_, kept_iff, fun number numbers => ?_⟩
  · rw [volume_eq, Volumes.isNaN_effective_iff, Volumes.Numeric, not_and_or, Bool.not_eq_false, Bool.not_eq_false]
  · rw [volume_eq]
    exact (v.after calls).effective_cases.symm.imp And.left And.left
  · have audible : cues = (v.played calls).filter Cue.isAudible := by
      refine kept_iff.2 fun earlier asset later split _ _ => number.after fun c hc => numbers c ?_
      rw [split]
      exact List.mem_append_left _ hc
    refine ⟨audible, fun c hc => ?_, ?_⟩
    · obtain ⟨sound, volume⟩ := heard c hc
      have positive : 0 < c.volume := by
        rw [audible] at hc
        exact of_decide_eq_true (Bool.and_eq_true_iff.1 (List.mem_filter.1 hc).2).2
      have defined := (Single.isNaN_of_le (Single.le_of_lt positive)).2
      exact ⟨sound, volume.resolve_left (Bool.eq_false_iff.1 defined)⟩
    · rw [volume_eq]
      exact Volumes.effective_within (number.after numbers)

/-- With a NaN for a volume, a played cue is kept at that volume, which is not in `[0, 1]`. -/
theorem nan_volume_is_kept :
    let m := (ofVolumes {}).after [.setMaster .nan, .play ⟨3⟩]
    let volume := m.queue.volumes.effective
    m.queue.pending = #[⟨⟨3⟩, volume⟩] ∧ ¬(0 < volume ∧ volume ≤ 1) ∧ ¬(0 ≤ volume ∧ volume ≤ 1) ∧
      (({} : Volumes).played [.setMaster .nan, .play ⟨3⟩]).filter Cue.isAudible = [] := by
  decide +kernel

end Mixing

end Danmaku
