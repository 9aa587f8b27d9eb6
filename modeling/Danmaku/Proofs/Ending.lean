import Danmaku.Proofs.Rounds

/-! An update ends. Its rounds are counted, and the rank of the player bounds their number, whatever the
time, the surroundings and the state it starts from. The loops that could keep it going are the endless
ones: one of them goes back to its start only if it has waited, which leaves it without a wait, and no wait
that takes time can follow in the same update. So it goes back at most once, and at its next end the update
yields. A frame is named by its height in the stack, which it keeps as long as the stack does not fall to
that height. -/

namespace Danmaku

namespace Turn

variable {globals : Blackboard} {t u v : Turn} {height : Nat}

/-- The turn at the beginning of a round, the first being round `0`; none when the update is over. -/
def atRound? (globals : Blackboard) (t : Turn) : Nat → Option Turn
  | 0 => some t
  | n + 1 =>
    match t.round globals with
    | .more u => u.atRound? globals n
    | .last _ => none

theorem atRound?_succ_of_more (h : t.round globals = .more u) (n : Nat) :
    t.atRound? globals (n + 1) = u.atRound? globals n := by
  rw [atRound?, h]

theorem atRound?_succ_of_last (h : t.round globals = .last u) (n : Nat) :
    t.atRound? globals (n + 1) = none := by
  rw [atRound?, h]

/-- Rounds of a turn that was reached are rounds from there. -/
theorem atRound?_add {n : Nat} (h : t.atRound? globals n = some u) (m : Nat) :
    t.atRound? globals (n + m) = u.atRound? globals m := by
  induction n generalizing t with
  | zero =>
      obtain rfl : t = u := Option.some.inj h
      rw [Nat.zero_add]
  | succ n ih =>
      cases hr : t.round globals with
      | more v =>
          rw [atRound?_succ_of_more hr] at h
          rw [Nat.add_right_comm, atRound?_succ_of_more hr, ih h]
      | last v =>
          rw [atRound?_succ_of_last hr] at h
          cases h

/-- What goes over from round to round holds at the beginning of each. -/
theorem atRound?_induction {P : Turn → Prop} (more : ∀ t u, P t → t.round globals = .more u → P u) {n : Nat}
    (h : P t) (hn : t.atRound? globals n = some u) : P u := by
  induction n generalizing t with
  | zero =>
      obtain rfl : t = u := Option.some.inj hn
      exact h
  | succ n ih =>
      cases hr : t.round globals with
      | more v =>
          rw [atRound?_succ_of_more hr] at hn
          exact ih (more t v h hr) hn
      | last v =>
          rw [atRound?_succ_of_last hr] at hn
          cases hn

/-- The rounds come to a last one, within the rank of the player. -/
theorem exists_last_round (globals : Blackboard) (t : Turn) :
    ∃ n u, n ≤ t.player.rank ∧ t.atRound? globals n = some u ∧ u.round globals = .last (t.run globals) := by
  cases hr : t.round globals with
  | more u =>
      have hlt := rank_lt_of_round hr
      obtain ⟨n, v, hn, hv, hlast⟩ := exists_last_round globals u
      refine ⟨n + 1, v, Nat.lt_of_le_of_lt hn hlt, ?_, ?_⟩
      · rw [atRound?_succ_of_more hr, hv]
      · rw [run_eq_round, hr, hlast]
  | last u =>
      refine ⟨0, t, Nat.zero_le _, rfl, ?_⟩
      rw [run_eq_round, hr]
termination_by t.player.rank

/-- What the update ends with, if this is its last round. Unlike `run`, it can be computed. -/
def lastAt? (globals : Blackboard) (t : Turn) (n : Nat) : Option Turn :=
  (t.atRound? globals n).bind fun u =>
    match u.round globals with
    | .more _ => none
    | .last v => some v

theorem run_eq_of_lastAt? {n : Nat} (h : t.lastAt? globals n = some v) : t.run globals = v := by
  induction n generalizing t with
  | zero =>
      rw [run_eq_round]
      simp only [lastAt?, atRound?, Option.bind_some] at h
      cases hr : t.round globals with
      | more u =>
          rw [hr] at h
          cases h
      | last u =>
          rw [hr] at h
          exact Option.some.inj h
  | succ n ih =>
      rw [run_eq_round]
      cases hr : t.round globals with
      | more u =>
          rw [lastAt?, atRound?_succ_of_more hr] at h
          exact ih h
      | last u =>
          rw [lastAt?, atRound?_succ_of_last hr] at h
          cases h

/-- The turns at which the rounds begin, if there is one more than this number. Unlike `rounds`, they can be computed. -/
def roundsAt? (globals : Blackboard) (t : Turn) (n : Nat) : Option (List Turn) :=
  match t.round globals, n with
  | .more u, n + 1 => (u.roundsAt? globals n).map (t :: ·)
  | .last _, 0 => some [t]
  | _, _ => none

theorem rounds_eq_of_roundsAt? {n : Nat} {all : List Turn} (h : t.roundsAt? globals n = some all) :
    t.rounds globals = all := by
  induction n generalizing t all with
  | zero =>
      rw [rounds_eq]
      unfold roundsAt? at h
      cases hr : t.round globals with
      | more u =>
          rw [hr] at h
          cases h
      | last u =>
          rw [hr] at h
          exact Option.some.inj h
  | succ n ih =>
      rw [rounds_eq]
      unfold roundsAt? at h
      cases hr : t.round globals with
      | more u =>
          rw [hr] at h
          obtain ⟨rest, found, rfl⟩ := Option.map_eq_some_iff.1 h
          exact congrArg (t :: ·) (ih found)
      | last u =>
          rw [hr] at h
          cases h

theorem atRound?_eq_none_of_last {n m : Nat} (h : t.atRound? globals n = some u)
    (hlast : u.round globals = .last v) (hm : n < m) : t.atRound? globals m = none := by
  obtain ⟨k, rfl⟩ := Nat.exists_eq_add_of_lt hm
  rw [Nat.add_assoc, atRound?_add h, atRound?_succ_of_last hlast]

/-- The innermost loop is endless, it is at this height of the stack, and its end is the next instruction. -/
structure EndsEndless (t : Turn) (height : Nat) (frame : Frame) : Prop where
  ends : ∃ i, t.player.program.instructions[t.player.pointer]? = some i ∧ i.enabled = true ∧
    i.action.isLoopEnd = true
  innermost : ∃ frames, t.player.frames = frame :: frames ∧ frames.length = height
  endless : frame.endless = true

/-- At its end an endless loop goes back to its start: at once if it has waited, with a yield if not. -/
theorem EndsEndless.round {frame : Frame} (h : t.EndsEndless height frame) (globals : Blackboard) :
    ∃ frames, t.player.frames = frame :: frames ∧ frames.length = height ∧
      t.round globals =
        if frame.waited then .more ((t.count.again frame frames frame.remaining).moveTo frame.start)
        else .last ((t.count.again frame frames frame.remaining).moveTo frame.start).markYield := by
  obtain ⟨i, hi, enabled, last⟩ := h.ends
  obtain ⟨frames, hf, hlen⟩ := h.innermost
  have haction : i.action = .endLoop := by
    cases ha : i.action with
    | endLoop => rfl
    | _ =>
        rw [ha] at last
        cases last
  refine ⟨frames, hf, hlen, ?_⟩
  have hexec : t.count.execute globals i =
      (if frame.waited then .jump frame.start else .yieldAt frame.start,
        t.count.again frame frames frame.remaining) := by
    have hcount : t.count.player.frames = frame :: frames := hf
    simp only [execute_eq_perform, perform, haction, endLoop, hcount, h.endless, if_true]
  simp only [Turn.round, hi, enabled, if_true, hexec]
  cases frame.waited <;> rfl

/-- The frame at a height is that of an endless loop which has not waited in its iteration. -/
def IdleAt (height : Nat) (frames : List Frame) : Prop :=
  ∃ f, frames.reverse[height]? = some f ∧ f.endless = true ∧ f.waited = false

theorem IdleAt.cons {frames : List Frame} (h : IdleAt height frames) (frame : Frame) :
    IdleAt height (frame :: frames) := by
  obtain ⟨f, hf, he, hw⟩ := h
  refine ⟨f, ?_, he, hw⟩
  rw [List.reverse_cons, List.getElem?_append_left (List.getElem?_eq_some_iff.1 hf).1, hf]

theorem IdleAt.tail {frame : Frame} {frames : List Frame} (h : IdleAt height (frame :: frames))
    (hlt : height < frames.length) : IdleAt height frames := by
  obtain ⟨f, hf, he, hw⟩ := h
  rw [List.reverse_cons, List.getElem?_append_left (by rwa [List.length_reverse])] at hf
  exact ⟨f, hf, he, hw⟩

/-- The innermost frame is at the height of those below it. -/
theorem idleAt_length_iff {frame : Frame} {frames : List Frame} :
    IdleAt frames.length (frame :: frames) ↔ frame.endless = true ∧ frame.waited = false := by
  have hget : (frame :: frames).reverse[frames.length]? = some frame := by
    rw [List.reverse_cons, List.getElem?_append_right (Nat.le_of_eq List.length_reverse),
      List.length_reverse, Nat.sub_self]
    rfl
  unfold IdleAt
  rw [hget]
  constructor
  · rintro ⟨f, hf, he, hw⟩
    obtain rfl := Option.some.inj hf
    exact ⟨he, hw⟩
  · rintro ⟨he, hw⟩
    exact ⟨frame, rfl, he, hw⟩

/-- As long as the stack stays above it, an endless loop that has not waited does not wait in this update:
a wait that takes time ends the update, and only one that has waited goes on after its end. -/
theorem idleAt_of_more (h : t.round globals = .more u) (idle : IdleAt height t.player.frames)
    (hlt : height < u.player.frames.length) : IdleAt height u.player.frames := by
  have hr := rounded_round globals t
  generalize t.round globals = r at h hr
  cases hr with
  | done => cases h
  | repaired past opened =>
      obtain rfl := Round.more.inj h
      rw [opened] at idle
      exact idle.tail hlt
  | disabled =>
      obtain rfl := Round.more.inj h
      exact idle
  | executed here enabled executed =>
      have hcount : t.count.player.frames = t.player.frames := rfl
      cases executed with
      | plain _ same =>
          obtain rfl := Round.more.inj h
          exact same.frames.symm ▸ idle
      | pass _ same =>
          obtain rfl := Round.more.inj h
          exact same.frames.symm ▸ idle
      | stray _ _ same =>
          obtain rfl := Round.more.inj h
          exact same.frames.symm ▸ idle
      | enter _ same =>
          obtain rfl := Round.more.inj h
          exact (same.frames.symm ▸ idle).cons _
      | close _ opened =>
          obtain rfl := Round.more.inj h
          rw [← hcount, opened] at idle
          exact idle.tail hlt
      | @again frame frames remaining _ opened turns =>
          obtain rfl := Round.more.inj h
          rw [← hcount, opened] at idle
          rcases Nat.lt_succ_iff_lt_or_eq.1 hlt with hlt | rfl
          · exact (idle.tail hlt).cons _
          · obtain ⟨he, hw⟩ := idleAt_length_iff.1 idle
            rcases turns with ⟨-, hw', -⟩ | ⟨he', -, -⟩
            · rw [hw] at hw'
              cases hw'
            · rw [he] at he'
              cases he'
      | _ => cases h

theorem idleAt_atRound? {n : Nat} (idle : IdleAt height t.player.frames) (hn : t.atRound? globals n = some u)
    (above : ∀ k w, k ≤ n → t.atRound? globals k = some w → height < w.player.frames.length) :
    IdleAt height u.player.frames := by
  induction n generalizing t with
  | zero =>
      obtain rfl : t = u := Option.some.inj hn
      exact idle
  | succ n ih =>
      cases hr : t.round globals with
      | more v =>
          rw [atRound?_succ_of_more hr] at hn
          have above' : ∀ k w, k ≤ n → v.atRound? globals k = some w → height < w.player.frames.length := by
            intro k w hk hw
            exact above (k + 1) w (Nat.succ_le_succ hk) (by rw [atRound?_succ_of_more hr, hw])
          exact ih (idleAt_of_more hr idle (above' 0 v (Nat.zero_le n) rfl)) hn above'
      | last v =>
          rw [atRound?_succ_of_last hr] at hn
          cases hn

/-- An endless loop comes to its end for the second time without a wait. -/
theorem waited_eq_false_of_endsEndless_again {m n : Nat} {frame frame' : Frame} (hmn : m < n)
    (hu : t.atRound? globals m = some u) (hv : t.atRound? globals n = some v)
    (first : u.EndsEndless height frame) (second : v.EndsEndless height frame')
    (above : ∀ k w, m < k → k ≤ n → t.atRound? globals k = some w → height < w.player.frames.length) :
    frame'.waited = false := by
  obtain ⟨k, rfl⟩ := Nat.exists_eq_add_of_lt hmn
  rw [Nat.add_assoc, atRound?_add hu] at hv
  obtain ⟨frames, -, hlen, hround⟩ := first.round globals
  cases hw : frame.waited with
  | false =>
      rw [hw] at hround
      rw [atRound?_succ_of_last hround] at hv
      cases hv
  | true =>
      rw [hw] at hround
      rw [atRound?_succ_of_more hround] at hv
      have idle : IdleAt height v.player.frames := by
        refine idleAt_atRound? ?_ hv fun j w hj hatj => ?_
        · rw [← hlen]
          exact idleAt_length_iff.2 ⟨first.endless, rfl⟩
        · refine above (m + (j + 1)) w (by omega) (by omega) ?_
          rw [atRound?_add hu, atRound?_succ_of_more hround, hatj]
      obtain ⟨frames', hf', hlen'⟩ := second.innermost
      rw [hf', ← hlen'] at idle
      exact (idleAt_length_iff.1 idle).2

end Turn

namespace Player

/-- An update that runs comes to its last round, whatever calls came before and whatever its time and its
surroundings are; any other counts the time at most. Where the same endless loop comes to its end twice in
it, that is when the stack stays above the height of its frame in between, the loop has not waited the second
time, and the update yields there, at the start of the loop; so there is no third time. -/
theorem update_comes_to_last_round (program : Program) (emitter : ProjectileId) (slot : UInt32)
    (calls : List Call) (dt : Single) (globals : Blackboard) (swarm : Swarm) :
    let p := (ofProgram program emitter slot).after calls
    let t := p.begin dt swarm
    (p.Runs dt → ∃ n u, n ≤ t.player.rank ∧ t.atRound? globals n = some u ∧
      u.round globals = .last (p.update dt globals swarm) ∧ ∀ m, n < m → t.atRound? globals m = none) ∧
    (¬p.Runs dt → p.update dt globals swarm = t ∨ p.update dt globals swarm = { player := p, swarm }) ∧
    ∀ (height m n : Nat) (u v : Turn) (frame frame' : Frame), m < n →
      t.atRound? globals m = some u → t.atRound? globals n = some v →
      u.EndsEndless height frame → v.EndsEndless height frame' →
      (∀ k w, m < k → k ≤ n → t.atRound? globals k = some w → height < w.player.frames.length) →
      frame'.waited = false ∧
      (∃ w, v.round globals = .last w ∧ w.report.yielded = true ∧ w.player.pointer = frame'.start) ∧
      ∀ k, n < k → t.atRound? globals k = none := by
  intro p t
  refine ⟨fun runs => ?_, fun runs => ?_, ?_⟩
  · obtain ⟨n, u, hn, hu, hlast⟩ := Turn.exists_last_round globals t
    refine ⟨n, u, hn, hu, ?_, fun m hm => Turn.atRound?_eq_none_of_last hu hlast hm⟩
    rw [update_of_runs runs]
    exact hlast
  · rw [update_of_not_runs runs]
    split
    · exact Or.inl rfl
    · exact Or.inr rfl
  · intro height m n u v frame frame' hmn hu hv first second above
    have idle := Turn.waited_eq_false_of_endsEndless_again hmn hu hv first second above
    obtain ⟨frames, -, -, hround⟩ := second.round globals
    rw [idle] at hround
    exact ⟨idle, ⟨_, hround, rfl, rfl⟩, fun k hk => Turn.atRound?_eq_none_of_last hv hround hk⟩

end Player

end Danmaku
