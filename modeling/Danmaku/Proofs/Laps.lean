import Danmaku.Proofs.Ending
import Danmaku.Proofs.Rerolls

/-! The iterations of a loop, counted. A history tells how many of them have begun since the loop was entered, and the
frame of an open loop has the same count, so that what a policy chooses by that count is known of every request. A
mask chooses iterations by their number within a period, where a period of more than 32 counts as one of 32. -/

namespace Danmaku

namespace History

variable {past newer older : History} {start s : Nat} {f : Frame}

/-- How many iterations the loop whose body starts here has begun since it was entered. To be entered again it takes
a reset, or an iteration of a loop that starts before it. -/
def laps (start : Nat) : History → Nat
  | [] => 0
  | .reset :: _ => 0
  | .asked _ :: past => laps start past
  | .began s :: past => if s < start then 0 else if s = start then laps start past + 1 else laps start past

theorem laps_began_self (past : History) (s : Nat) : laps s (.began s :: past) = past.laps s + 1 := by
  rw [laps, if_neg (Nat.lt_irrefl s), if_pos rfl]

theorem laps_began_of_lt (past : History) (h : s < start) : laps start (.began s :: past) = 0 := if_pos h

theorem laps_began_of_gt (past : History) (h : start < s) : laps start (.began s :: past) = past.laps start := by
  rw [laps, if_neg (Nat.lt_asymm h), if_neg (Nat.ne_of_gt h)]

/-- The loop of the frame has begun one iteration more than the frame has counted as finished. -/
def Counts (past : History) (f : Frame) : Prop := ∃ n, past.laps f.start = n + 1 ∧ f.finished = .ofNat n

theorem Counts.congr {g : Frame} (h : past.Counts g) (start : f.start = g.start) (finished : f.finished = g.finished) :
    past.Counts f := by
  rw [Counts, start, finished]
  exact h

/-- A loop that is entered begins its first iteration. -/
theorem counts_of_entered (fresh : past.laps f.start = 0) (finished : f.finished = 0) :
    Counts (.began f.start :: past) f :=
  ⟨0, by rw [laps_began_self, fresh], finished⟩

/-- A loop that goes back to its start begins the next one. -/
theorem Counts.next {g : Frame} (h : past.Counts g) (start : f.start = g.start)
    (finished : f.finished = g.finished + 1) : Counts (.began f.start :: past) f := by
  obtain ⟨n, laps, counted⟩ := h
  refine ⟨n + 1, ?_, ?_⟩
  · rw [laps_began_self, start, laps]
  · rw [finished, counted, UInt32.ofNat_add]
    rfl

/-- A loop inside of it does not change the count. -/
theorem Counts.inner (h : past.Counts f) (inside : f.start < s) : Counts (.began s :: past) f := by
  rw [Counts, laps_began_of_gt past inside]
  exact h

/-- At every request, the frames of the open loops had the right counts. -/
def Counted : History → Prop
  | [] => True
  | .asked a :: past => (∀ f ∈ a.frames, Counts past f) ∧ Counted past
  | .began _ :: past => Counted past
  | .reset :: past => Counted past

theorem Counted.of_append (h : Counted (newer ++ older)) : Counted older := by
  induction newer with
  | nil => exact h
  | cons m newer ih =>
      cases m with
      | asked a => exact ih h.2
      | began start => exact ih h
      | reset => exact ih h

/-- The request was made after this history. -/
def Asked (past older : History) (a : Ask) : Prop := .asked a :: older <:+ past

/-- A request under a rule, in an iteration of its loop in which its channel has not been drawn, though it has been
before. The loop has finished `n` iterations. -/
structure Recurs (older : History) (rule : RerollRule) (n : Nat) (a : Ask) : Prop where
  reroll : a.reroll = .atLoops rule
  drawn : older.lastDrawn? a.key ≠ none
  loop : ∃ frame ∈ DrawCache.frameAt? a.frames rule.depth,
    older.BegunSince a.key frame.start ∧ older.laps frame.start = n + 1

instance decidableBegunSince (key : Nat × Channel) (start : Nat) :
    (past : History) → Decidable (past.BegunSince key start)
  | [] | .reset :: _ => isFalse id
  | .asked _ :: past =>
    have := decidableBegunSince key start past
    inferInstanceAs (Decidable (_ ∧ _))
  | .began _ :: past =>
    have := decidableBegunSince key start past
    inferInstanceAs (Decidable (_ ∨ _))

instance (older : History) (rule : RerollRule) (n : Nat) (a : Ask) : Decidable (older.Recurs rule n a) :=
  decidable_of_iff (a.reroll = .atLoops rule ∧ older.lastDrawn? a.key ≠ none ∧
      ∃ frame ∈ DrawCache.frameAt? a.frames rule.depth,
        older.BegunSince a.key frame.start ∧ older.laps frame.start = n + 1)
    ⟨fun h => ⟨h.1, h.2.1, h.2.2⟩, fun h => ⟨h.reroll, h.drawn, h.loop⟩⟩

/-- Such a request is answered by a draw exactly if the rule chooses the iteration. -/
theorem drawn_iff_selects {a : Ask} {rule : RerollRule} {n : Nat} (due : a.drawn = true ↔ Due older a)
    (counts : ∀ f ∈ a.frames, older.Counts f) (h : older.Recurs rule n a) :
    a.drawn = true ↔ rule.selects (.ofNat n) = true := by
  obtain ⟨frame, at', begun, laps⟩ := h.loop
  obtain ⟨m, laps', finished⟩ := counts frame (List.mem_of_getElem? at')
  obtain rfl : m = n := Nat.succ.inj (laps'.symm.trans laps)
  rw [due, ← finished]
  constructor
  · rintro (none | always | ⟨rule', frame', reroll, at'', -, selects⟩)
    · exact absurd none h.drawn
    · rw [h.reroll] at always
      cases always
    · rw [h.reroll] at reroll
      obtain rfl := Reroll.atLoops.inj reroll
      obtain rfl := Option.some.inj (at'.symm.trans at'')
      exact selects
  · intro selects
    exact Or.inr (Or.inr ⟨rule, frame, h.reroll, at', begun, selects⟩)

end History

/-- The open frames of a player have the right counts, and loops that start later are not entered yet. -/
structure Lapped (past : History) (p : Player) : Prop where
  nested : p.Nested
  ahead : ∀ start, p.pointer < start → past.laps start = 0
  opened : ∀ f ∈ p.frames, past.Counts f
  counted : past.Counted

namespace Lapped

variable {past : History} {p q : Player}

theorem nil (program : Program) (emitter : ProjectileId) (slot : UInt32) :
    Lapped [] (.ofProgram program emitter slot) where
  nested := Player.nested_ofProgram program emitter slot
  ahead := fun _ _ => rfl
  opened := fun _ hf => absurd hf List.not_mem_nil
  counted := trivial

/-- Where the player is and which loops are open is all that counts. -/
theorem congr (h : Lapped past p) (nested : q.Nested) (pointer : q.pointer = p.pointer) (frames : q.frames = p.frames) :
    Lapped past q where
  nested := nested
  ahead := by rw [pointer]; exact h.ahead
  opened := by rw [frames]; exact h.opened
  counted := h.counted

/-- What a moment says of the course of the player is what it adds to the counts. -/
theorem marked (h : Lapped past p) {m : Option Moment} (hm : Marked p m q) (nested : q.Nested) :
    Lapped (m.toList ++ past) q := by
  cases hm with
  | on pointer _ frames =>
      refine ⟨nested, fun start hlt => h.ahead start (Nat.lt_of_le_of_lt pointer hlt), fun f hf => ?_, h.counted⟩
      obtain ⟨g, hg, start, -, finished⟩ := frames f hf
      exact (h.opened g hg).congr start finished
  | began frame pointer _ opened _ outer finished =>
      refine ⟨nested, fun start hlt => ?_, fun f hf => ?_, h.counted⟩
      · rw [pointer] at hlt
        exact History.laps_began_of_lt past hlt
      · rw [opened] at hf
        rcases List.mem_cons.1 hf with rfl | hf
        · rcases finished with ⟨entered, zero⟩ | ⟨g, hg, start, next⟩
          · exact History.counts_of_entered (h.ahead _ entered) zero
          · exact (h.opened g hg).next start next
        · -- The loops around the one that begins an iteration start before it.
          have starts := nested.pairwise_start
          rw [opened, List.map_cons] at starts
          exact (h.opened f (outer f hf)).inner (List.rel_of_pairwise_cons starts (List.mem_map_of_mem hf))
  | reset _ frames =>
      refine ⟨nested, fun _ _ => rfl, fun f hf => ?_, h.counted⟩
      rw [frames] at hf
      exact absurd hf List.not_mem_nil

variable {t : Turn}

theorem asks (h : Lapped past t.player) (globals : Blackboard) (qs : List Query) :
    Lapped (((t.asks globals qs).map .asked).reverse ++ past) t.player := by
  induction qs generalizing t past with
  | nil => exact h
  | cons q qs ih =>
      have same := Turn.undisturbed_value t globals q.2.param q.1
      have nested := h.nested
      have asked : Lapped (.asked (t.ask globals q) :: past) t.player :=
        ⟨nested, h.ahead, h.opened, h.opened, h.counted⟩
      have answered : (t.answer globals q).player.Nested := by
        rw [Player.Nested, Turn.answer, same.program, same.pointer, same.frames]
        exact nested
      rw [Turn.asks, List.map_cons, List.reverse_cons, List.append_assoc]
      exact (ih (asked.congr answered same.pointer same.frames)).congr nested same.pointer.symm same.frames.symm

theorem round (h : Lapped past t.player) (globals : Blackboard) :
    Lapped (t.logs (Turn.moments globals) ++ past) (t.round globals).turn.player := by
  have nested := (Turn.rounded_round globals t).nested_turn h.nested
  rcases Turn.moments_cases globals t with ⟨moments, -, marked⟩ | ⟨i, here, -, moments, turn⟩
  · rw [moments]
    exact h.marked marked nested
  · rw [turn] at nested
    rw [moments, turn, Turn.moments, List.append_assoc]
    have asked := asks (t := t.count) h globals i.queries
    exact asked.marked ((Turn.executed_execute t.count globals i).marked here) nested

theorem after {l : Life} (h : Lapped l.past l.player) (calls : List Call) :
    Lapped (l.after calls).past (l.after calls).player :=
  Life.after_induction (P := Lapped) (fun globals _ _ h => h.round globals)
    (fun _ _ _ _ h => h.congr h.nested rfl rfl) (fun _ _ _ h => h.congr h.nested rfl rfl)
    (fun _ p _ h => ⟨.nil p.program, fun _ _ => rfl, fun _ hf => absurd hf List.not_mem_nil, h.counted⟩) h calls

end Lapped

/-- The request so many moments back, with the history before it. -/
def History.requestAt? (past : History) (n : Nat) : Option (History × Ask) :=
  match past.drop n with
  | .asked a :: older => some (older, a)
  | _ => none

theorem History.asked_of_requestAt? {past older : History} {a : Ask} {n : Nat}
    (h : past.requestAt? n = some (older, a)) : past.Asked older a := by
  unfold requestAt? at h
  split at h
  · rename_i split
    obtain ⟨rfl, rfl⟩ := Prod.mk.inj (Option.some.inj h)
    rw [Asked, ← split]
    exact List.drop_suffix n past
  · cases h

/-- The past of a life that begins with an update of these rounds. -/
theorem Life.past_of_roundsAt? {p : Player} {dt : Single} {globals : Blackboard} {swarm : Swarm} {n : Nat}
    {all : List Turn} (runs : p.Runs dt) (h : (p.begin dt swarm).roundsAt? globals n = some all) :
    (({ player := p } : Life).after [.update dt globals swarm]).past =
      Turn.logged (Turn.moments globals) (Turn.executed all) := by
  change Turn.logged _ (p.executions dt globals swarm) ++ [] = _
  rw [List.append_nil, Player.executions, if_pos runs, Turn.executions, Turn.rounds_eq_of_roundsAt? h]

namespace RerollRule

theorem selects_masked (depth period mask : UInt32) (n : Nat) :
    (masked depth period mask).selects (.ofNat n) =
      mask.toNat.testBit (n % UInt32.size % max 1 (min 32 period.toNat)) := by
  simp only [selects, masked, Bool.false_or, UInt32.toNat_ofNat']

/-- A period from 1 to 32 counts as it is. -/
theorem selects_masked_of_period {period : UInt32} {n : Nat} (least : 1 ≤ period.toNat) (most : period.toNat ≤ 32)
    (small : n < UInt32.size) (depth mask : UInt32) :
    (masked depth period mask).selects (.ofNat n) = mask.toNat.testBit (n % period.toNat) := by
  rw [selects_masked, Nat.mod_eq_of_lt small, Nat.min_eq_right most, Nat.max_eq_right least]

end RerollRule

/-- When a masked policy draws again, over every life of a player. At every request the frames of the open loops have
counted the iterations that are finished. A request under a mask, in an iteration of its loop in which its channel has
not been drawn yet, is answered by a draw exactly if the bit of the iteration within the period is set, where a longer
period than 32 counts as 32. Up to that, and while the count does not overflow, the bit is that of the period as given,
and iterations that are one period apart are treated alike. -/
theorem Life.masked_rerolls (program : Program) (emitter : ProjectileId) (slot : UInt32) (calls : List Call) :
    let past := ((ofProgram program emitter slot).after calls).past
    (∀ older a, past.Asked older a → ∀ f ∈ a.frames, ∃ n, older.laps f.start = n + 1 ∧ f.finished = .ofNat n) ∧
    ∀ depth period mask : UInt32,
      (∀ older a n, past.Asked older a → older.Recurs (.masked depth period mask) n a →
        (a.drawn = true ↔ mask.toNat.testBit (n % UInt32.size % max 1 (min 32 period.toNat)) = true)) ∧
      (1 ≤ period.toNat → period.toNat ≤ 32 →
        (∀ older a n, past.Asked older a → older.Recurs (.masked depth period mask) n a → n < UInt32.size →
          (a.drawn = true ↔ n % period.toNat < 32 ∧ mask.toNat.testBit (n % period.toNat) = true)) ∧
        ∀ older a later b n, past.Asked older a → past.Asked later b →
          older.Recurs (.masked depth period mask) n a →
          later.Recurs (.masked depth period mask) (n + period.toNat) b → n + period.toNat < UInt32.size →
          a.drawn = b.drawn) := by
  intro past
  have accounted : past.Accounted := (Recorded.after (Recorded.nil program emitter slot) calls).accounted
  have counted : past.Counted := (Lapped.after (Lapped.nil program emitter slot) calls).counted
  have counts {older : History} {a : Ask} (h : past.Asked older a) : ∀ f ∈ a.frames, older.Counts f := by
    obtain ⟨newer, split⟩ := h
    rw [← split] at counted
    exact counted.of_append.1
  have selected {older : History} {a : Ask} {rule : RerollRule} {n : Nat} (h : past.Asked older a)
      (recurs : older.Recurs rule n a) : a.drawn = true ↔ rule.selects (.ofNat n) = true := by
    refine History.drawn_iff_selects ?_ (counts h) recurs
    obtain ⟨newer, split⟩ := h
    rw [← split] at accounted
    exact accounted.of_append.1.1
  refine ⟨fun _ _ h => counts h, fun depth period mask => ⟨fun older a n h recurs => ?_, fun least most => ⟨?_, ?_⟩⟩⟩
  · rw [selected h recurs, RerollRule.selects_masked]
  · intro older a n h recurs small
    rw [selected h recurs, RerollRule.selects_masked_of_period least most small]
    have within : n % period.toNat < 32 := Nat.lt_of_lt_of_le (Nat.mod_lt n least) most
    exact (and_iff_right within).symm
  · intro older a later b n ha hb first second small
    rw [Bool.eq_iff_iff, selected ha first, selected hb second,
      RerollRule.selects_masked_of_period least most small,
      RerollRule.selects_masked_of_period least most (by omega), Nat.add_mod_right]

/-- A loop that sets a random speed, to be drawn again in the first iteration of every period. -/
def Program.pulse (iterations : Int32) (period : UInt32) : Program where
  id := 1
  instructions := [
    .beginLoop iterations,
    { kind := .setSpeed {
        tree := .between 0 100 .random, reroll := .atLoops (.masked 0 period 1) } },
    .endLoop]

namespace Life

/-- With a period of two, the second and the fourth iteration draw nothing. -/
theorem pulse_skips_every_other :
    let past := ((ofProgram (.pulse 4 2) ⟨1⟩ 0).after [.update 0.5 {} (.ofSeed 1)]).past
    ∃ older a later b, past.Asked older a ∧ past.Asked later b ∧
      older.Recurs (.masked 0 2 1) 1 a ∧ later.Recurs (.masked 0 2 1) 3 b ∧ a.drawn = false ∧ b.drawn = false := by
  intro past
  have shown : (((Player.ofProgram (.pulse 4 2) ⟨1⟩ 0).begin 0.5 (.ofSeed 1)).roundsAt? {} 9).bind (fun rounds =>
      let all : History := Turn.logged (Turn.moments {}) (Turn.executed rounds)
      (all.requestAt? 4).bind fun x => (all.requestAt? 0).map fun y =>
        decide (x.1.Recurs (.masked 0 2 1) 1 x.2 ∧ y.1.Recurs (.masked 0 2 1) 3 y.2)) = some true := by
    decide +kernel
  obtain ⟨rounds, run, shown⟩ := Option.bind_eq_some_iff.1 shown
  obtain ⟨⟨older, a⟩, first, shown⟩ := Option.bind_eq_some_iff.1 shown
  obtain ⟨⟨later, b⟩, second, shown⟩ := Option.map_eq_some_iff.1 shown
  obtain ⟨ha, hb⟩ := of_decide_eq_true shown
  have past_eq : past = _ := past_of_roundsAt? (by decide +kernel) run
  have asked : past.Asked older a := past_eq ▸ History.asked_of_requestAt? first
  have asked' : past.Asked later b := past_eq ▸ History.asked_of_requestAt? second
  obtain ⟨-, rerolls⟩ := masked_rerolls (.pulse 4 2) ⟨1⟩ 0 [.update 0.5 {} (.ofSeed 1)]
  obtain ⟨chosen, alike⟩ := (rerolls 0 2 1).2 (by decide) (by decide)
  have skipped : a.drawn = false := by
    rw [← Bool.not_eq_true, chosen older a 1 asked ha (by decide)]
    decide
  exact ⟨older, a, later, b, asked, asked', ha, hb, skipped,
    (alike older a later b 1 asked asked' ha hb (by decide)).symm.trans skipped⟩

/-- With a period of 33, the iteration after 32 others draws again, though no bit of a mask stands for it. -/
theorem pulse_draws_past_mask :
    let past := ((ofProgram (.pulse 33 33) ⟨1⟩ 0).after [.update 0.5 {} (.ofSeed 1)]).past
    ∃ older a, past.Asked older a ∧ older.Recurs (.masked 0 33 1) 32 a ∧ a.drawn = true ∧
      ¬(32 % 33 < 32 ∧ (1 : UInt32).toNat.testBit (32 % 33) = true) := by
  intro past
  have shown : (((Player.ofProgram (.pulse 33 33) ⟨1⟩ 0).begin 0.5 (.ofSeed 1)).roundsAt? {} 67).bind (fun rounds =>
      let all : History := Turn.logged (Turn.moments {}) (Turn.executed rounds)
      (all.requestAt? 0).map fun x => decide (x.1.Recurs (.masked 0 33 1) 32 x.2 ∧ x.2.drawn = true)) =
        some true := by
    decide +kernel
  obtain ⟨rounds, run, shown⟩ := Option.bind_eq_some_iff.1 shown
  obtain ⟨⟨older, a⟩, last, shown⟩ := Option.map_eq_some_iff.1 shown
  obtain ⟨recurs, drawn⟩ := of_decide_eq_true shown
  have past_eq : past = _ := past_of_roundsAt? (by decide +kernel) run
  exact ⟨older, a, past_eq ▸ History.asked_of_requestAt? last, recurs, drawn, by decide⟩

end Life

end Danmaku
