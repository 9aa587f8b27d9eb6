import Danmaku.Proofs.Abreast

/-! A counted loop does what its body does when it stands as often in the text. Away from the begin and the end
of the loop, a round of a player of the one text is a round of a player of the other. At the begin and at the
end, only the player with the loop moves, and shows nothing. -/

namespace Danmaku

namespace LoopText

variable {l : LoopText} {j : Nat} {p : Player} {t : Turn} {c : Course}

namespace Abreast

/-- At the begin of the loop, only the one moves: into the body, or past the loop that does not turn. -/
theorem round_begin (ha : l.Abreast j t.player c) (h : l.Unrollable) (nested : t.player.Nested)
    (begin : t.player.pointer = l.head) (globals : Blackboard) :
    ∃ u k, t.round globals = .more u ∧ u.onto c = t.onto c ∧ l.Abreast k u.player c := by
  have here : t.player.program.instructions[t.player.pointer]? = some l.begin := by
    rw [ha.looped, begin]
    exact looped_head
  have hpointer : c.pointer = l.head := by
    rw [ha.pointer, begin]
    exact across_before (Nat.le_refl _)
  have counted : l.Abreast j t.count.player c := { ha with }
  obtain ⟨cache, hvalue, kept⟩ := counted.value_head begin h.fixed (fun _ => .rfl) globals
  rw [Turn.round_of_enabled here h.begin_enabled]
  simp only [Turn.execute, h.begin_kind, Turn.beginLoop, hvalue]
  split
  · rename_i hcount
    have hturns : l.turns = 0 := Int.toNat_of_nonpos hcount.2
    refine ⟨_, j, rfl, rfl, { ha with pointer := ?_, kept }⟩
    have hbehind := across_behind (l := l) (j := j) 0
    rw [hturns, Nat.zero_mul] at hbehind
    change c.pointer = l.across j (t.player.program.afterLoop t.player.pointer)
    rw [hpointer, ha.looped, begin, h.afterLoop_head]
    exact hbehind.symm
  · rename_i hcount
    have hturns : 0 < l.turns ∧ l.count.toInt = (l.turns - 0 : Nat) := by
      have hpos : 0 < l.count.toInt := by simpa [count] using hcount
      unfold turns
      omega
    have before (g : Frame) (hg : g ∈ t.player.frames) : g.start ≤ l.head := by
      have nests := ha.nests nested
      have hlt := (Program.of_mem_openLoops (nests.suffix.subset (List.mem_map_of_mem hg)) nests.position_le).1
      omega
    refine ⟨_, 0, rfl, rfl, { ha with pointer := ?_, frames := ?_, own := fun g hg own => ?_, kept }⟩
    · have hbody := across_body (l := l) (j := 0) (Nat.zero_le _)
      rw [Nat.zero_mul] at hbody
      change c.pointer = l.across 0 (t.player.pointer + 1)
      rw [hpointer, begin]
      exact hbody.symm
    · let frame : Frame :=
        { start := t.player.pointer + 1, remaining := l.count.toInt, stamp := t.player.lastStamp + 1 }
      have own : frame.start = l.head + 1 := congrArg (· + 1) begin
      change List.Forall₂ _ (Frame.others l.head (frame :: t.player.frames)) _
      rw [Frame.others_cons_of_eq own]
      exact forall₂_of_before ha.frames (fun g hg => before g (List.mem_of_mem_filter hg)) 0
    · rcases List.mem_cons.1 hg with rfl | hg
      · exact ⟨hturns.1, rfl, hturns.2⟩
      · exact absurd own (Nat.ne_of_lt (Nat.lt_succ_of_le (before g hg)))

/-- At the end of the loop, it is the innermost that is open, and the others begin before it. -/
theorem frames_foot (ha : l.Abreast j p c) (h : l.Unrollable) (nested : p.Nested) (last : p.pointer = l.foot) :
    ∃ f fs, p.frames = f :: fs ∧ f.start = l.head + 1 ∧ ∀ g ∈ fs, g.start ≤ l.head := by
  obtain ⟨outer, houter⟩ := h.openLoops_foot
  have nests := ha.nests nested
  rw [last] at nests
  have hmap := nests.eq_of_lt foot_lt_length
  have hpair := Program.pairwise_openLoops nests.position_le
  rw [houter] at hmap hpair
  cases opened : p.frames with
  | nil =>
      rw [opened] at hmap
      cases hmap
  | cons f fs =>
      rw [opened, List.map_cons] at hmap
      obtain ⟨hown, hfs⟩ := List.cons.inj hmap
      have hpos := nests.start_pos f (opened ▸ List.mem_cons_self)
      refine ⟨f, fs, rfl, by omega, fun g hg => ?_⟩
      have hlt := List.rel_of_pairwise_cons hpair (hfs ▸ List.mem_map_of_mem hg)
      omega

/-- At the end of the loop, only the one moves: back to the body, or out of the loop that has turned. -/
theorem round_last (ha : l.Abreast j t.player c) (h : l.Unrollable) (nested : t.player.Nested)
    (last : t.player.pointer = l.foot) (globals : Blackboard) :
    ∃ u k, t.round globals = .more u ∧ u.onto c = t.onto c ∧ l.Abreast k u.player c := by
  have here : t.player.program.instructions[t.player.pointer]? = some l.last := by
    rw [ha.looped, last]
    exact looped_foot
  have hpointer : c.pointer = l.head + (j + 1) * l.body.length := by
    rw [ha.pointer, last, Nat.succ_mul]
    exact across_body (Nat.le_refl _)
  obtain ⟨f, fs, opened, own, before⟩ := ha.frames_foot h nested last
  obtain ⟨hj, endless, remaining⟩ := ha.turning (opened ▸ List.mem_cons_self) own
  have others (k : Nat) : List.Forall₂ (Frame.Counterpart (l.across k)) (Frame.others l.head fs) c.frames := by
    exact forall₂_of_before (ha.frames_of_own opened own) (fun g hg => before g (List.mem_of_mem_filter hg)) k
  have ne (g : Frame) (hg : g ∈ fs) : g.start ≠ l.head + 1 := Nat.ne_of_lt (Nat.lt_succ_of_le (before g hg))
  have opened' : t.count.player.frames = f :: fs := opened
  rw [Turn.round_of_enabled here h.last_enabled]
  simp only [Turn.execute, h.last_kind, Turn.endLoop, opened', endless, Bool.false_eq_true, if_false]
  split
  · have hturns : j + 1 = l.turns := by omega
    refine ⟨_, j, rfl, rfl,
      { ha with pointer := ?_, frames := others j, own := fun g hg own => absurd own (ne g hg) }⟩
    change c.pointer = l.across j (t.player.pointer + 1)
    rw [hpointer, hturns, last]
    exact (across_behind 0).symm
  · have hturns : j + 1 < l.turns := by omega
    refine ⟨_, j + 1, rfl, rfl, { ha with pointer := ?_, frames := ?_, own := fun g hg own => ?_ }⟩
    · change c.pointer = l.across (j + 1) f.start
      rw [hpointer, own]
      exact (across_body (Nat.zero_le _)).symm
    · have next : (t.nextIteration f (f.remaining - 1)).start = l.head + 1 := own
      change List.Forall₂ _ (Frame.others l.head (t.nextIteration f (f.remaining - 1) :: fs)) _
      rw [Frame.others_cons_of_eq next]
      exact others (j + 1)
    · rcases List.mem_cons.1 hg with rfl | hg
      · refine ⟨hturns, endless, ?_⟩
        change f.remaining - 1 = _
        omega
      · exact absurd own (ne g hg)

/-- The two updates show the same. -/
theorem run {j : Nat} {t : Turn} {c : Course} (ha : l.Abreast j t.player c) (h : l.Unrollable)
    (nested : t.player.Nested) (globals : Blackboard) :
    ∃ k c', (t.onto c).run globals = (t.run globals).onto c' ∧ l.Abreast k (t.run globals).player c' := by
  -- Where only the one moves, the other is still to do what is left of the update.
  have moved {u : Turn} {k : Nat} (hround : t.round globals = .more u) (same : u.onto c = t.onto c)
      (hu : l.Abreast k u.player c) :
      ∃ k c', (t.onto c).run globals = (t.run globals).onto c' ∧ l.Abreast k (t.run globals).player c' := by
    have nested' := (Turn.rounded_round globals t).nested_turn nested
    rw [hround] at nested'
    have := hu.run h nested' globals
    rwa [same, ← show t.run globals = u.run globals by rw [Turn.run_eq_round, hround]] at this
  by_cases begin : t.player.pointer = l.head
  · obtain ⟨u, k, hround, same, hu⟩ := ha.round_begin h nested begin globals
    exact moved hround same hu
  by_cases last : t.player.pointer = l.foot
  · obtain ⟨u, k, hround, same, hu⟩ := ha.round_last h nested last globals
    exact moved hround same hu
  obtain ⟨c', same, hu⟩ := ha.round h nested begin last globals
  have nested' := (Turn.rounded_round globals t).nested_turn nested
  rw [Turn.run_eq_round globals t, Turn.run_eq_round globals (t.onto c), same]
  cases hround : t.round globals with
  | last u =>
      rw [hround] at hu
      exact ⟨j, c', rfl, hu⟩
  | more u =>
      rw [hround] at hu nested'
      exact hu.run h nested' globals
termination_by t.player.rank
decreasing_by
  · exact Turn.rank_lt_of_round hround
  · exact Turn.rank_lt_of_round hround

theorem update (ha : l.Abreast j p c) (h : l.Unrollable) (nested : p.Nested) (dt : Single)
    (globals : Blackboard) (swarm : Swarm) :
    ∃ k c', (p.onto c).update dt globals swarm = (p.update dt globals swarm).onto c' ∧
      l.Abreast k (p.update dt globals swarm).player c' := by
  have begun : l.Abreast j (p.begin dt swarm).player { c with executed := 0 } :=
    { ha with }
  by_cases hr : p.Runs dt
  · have hr' : (p.onto c).Runs dt := hr
    rw [Player.update_of_runs hr, Player.update_of_runs hr']
    exact begun.run h nested globals
  · have hr' : ¬(p.onto c).Runs dt := hr
    rw [Player.update_of_not_runs hr, Player.update_of_not_runs hr']
    by_cases playing : p.status = .playing
    · have playing' : (p.onto c).status = .playing := playing
      rw [if_pos playing, if_pos playing']
      exact ⟨j, _, rfl, begun⟩
    · have playing' : ¬(p.onto c).status = .playing := playing
      rw [if_neg playing, if_neg playing']
      exact ⟨j, { c with executed := 0 }, rfl, { ha with }⟩

end Abreast

/-- Whatever calls the two players have seen, they are abreast. -/
theorem abreast_after (h : l.Unrollable) (emitter : ProjectileId) (slot : UInt32) (calls : List Call) :
    let p := (Player.ofProgram l.looped emitter slot).after calls
    ∃ j c, (Player.ofProgram l.unrolled emitter slot).after calls = p.onto c ∧ l.Abreast j p c ∧ p.Nested := by
  let P (p q : Player) : Prop := ∃ j c, q = p.onto c ∧ l.Abreast j p c ∧ p.Nested
  have start : P (Player.ofProgram l.looped emitter slot) (Player.ofProgram l.unrolled emitter slot) := by
    obtain ⟨c, same, begun⟩ :=
      l.facing.alongside_ofProgram _ (across_before (Nat.zero_le _)) (startStatus h) emitter slot
    exact ⟨0, c, same, begun, Player.nested_ofProgram l.looped emitter slot⟩
  have call (p q : Player) (x : Call) (hpq : P p q) : P (p.call x) (q.call x) := by
    obtain ⟨j, c, rfl, ha, nested⟩ := hpq
    have nested' := Player.nested_call p x nested
    cases x with
    | update dt globals swarm =>
        obtain ⟨k, c', same, hu⟩ := ha.update h nested dt globals swarm
        exact ⟨k, c', congrArg Turn.player same, hu, nested'⟩
    | command command =>
        obtain ⟨c', same, hu⟩ := (Abreast.relation h j).command ha command
        exact ⟨j, c', same, hu, nested'⟩
  have after (p q : Player) (hpq : P p q) : P (p.after calls) (q.after calls) := by
    induction calls generalizing p q with
    | nil => exact hpq
    | cons x calls ih => exact ih _ _ (call p q x hpq)
  exact after _ _ start

/-- A counted loop and its body, written as often as the loop turns, show the same to the host. Whatever calls
the two players have seen from their start, they have the same status, time, wait and shots, and every update
gives the same events in the same order, leaves the same swarm and reports the same, but for the number of
instructions. The swarm of an update may be what the one before has left or another one, so the host may do
what it likes in between. -/
theorem unrolled_shows_the_same (l : LoopText) (h : l.Unrollable) (emitter : ProjectileId) (slot : UInt32)
    (calls : List Call) :
    let p := (Player.ofProgram l.looped emitter slot).after calls
    let q := (Player.ofProgram l.unrolled emitter slot).after calls
    (q.status = p.status ∧ q.time = p.time ∧ q.wait = p.wait ∧ q.shots = p.shots) ∧
    ∀ (dt : Single) (globals : Blackboard) (swarm : Swarm),
      let u := p.update dt globals swarm
      let u' := q.update dt globals swarm
      u'.events = u.events ∧ u'.swarm = u.swarm ∧ u'.report.shots = u.report.shots ∧
      u'.report.yielded = u.report.yielded ∧ u'.report.repaired = u.report.repaired ∧
      u'.player.status = u.player.status ∧ u'.player.time = u.player.time ∧
      u'.player.wait = u.player.wait ∧ u'.player.shots = u.player.shots := by
  intro p q
  obtain ⟨j, c, hq, ha, nested⟩ := abreast_after h emitter slot calls
  have hq : q = p.onto c := hq
  refine ⟨by rw [hq]; exact ⟨rfl, rfl, rfl, rfl⟩, fun dt globals swarm => ?_⟩
  obtain ⟨k, c', same, -⟩ := ha.update h nested dt globals swarm
  intro u u'
  have hu : u' = u.onto c' := by rw [← same, ← hq]
  rw [hu]
  exact ⟨rfl, rfl, rfl, rfl, rfl, rfl, rfl, rfl, rfl⟩

/-- A loop with a loop inside, and an endless one around. -/
def waves : LoopText where
  id := 1
  pre := [.endlessLoop]
  begin := .beginLoop 3
  body := [.beginLoop 2, .wait 1, .endLoop]
  last := .endLoop
  post := [.endLoop]
  iterations := .fixed 3

theorem unrollable_waves : waves.Unrollable where
  begin_enabled := rfl
  begin_kind := rfl
  fixed := rfl
  last_enabled := rfl
  last_kind := rfl
  matched := rfl
  around := by
    intro i hi q hq
    rcases List.mem_pair.1 hi with rfl | rfl
    · obtain rfl := List.mem_singleton.1 hq
      exact nofun
    · exact absurd hq List.not_mem_nil
  within := by
    have body (i : Instruction) (hi : i ∈ waves.body) : i = .beginLoop 2 ∨ i = .wait 1 ∨ i = .endLoop := by
      simpa [waves] using hi
    intro i hi q hq
    rcases body i hi with rfl | rfl | rfl
    · obtain rfl := List.mem_singleton.1 hq
      rfl
    · obtain rfl := List.mem_singleton.1 hq
      rfl
    · exact absurd hq List.not_mem_nil
  nonempty := rfl

/-- An update of the one that is entered and one that waits. -/
theorem unrolled_waves_show_the_same :
    let calls := [.update 0 {} (.ofSeed 0), .update 1 {} (.ofSeed 1)]
    let p := (Player.ofProgram waves.looped ⟨0⟩ 0).after calls
    let q := (Player.ofProgram waves.unrolled ⟨0⟩ 0).after calls
    waves.Unrollable ∧ waves.unrolled.length = 11 ∧ q.time = p.time ∧ q.wait = p.wait ∧
      (q.update 1 {} (.ofSeed 2)).swarm = (p.update 1 {} (.ofSeed 2)).swarm := by
  intro calls p q
  have h := unrolled_shows_the_same waves unrollable_waves ⟨0⟩ 0 calls
  exact ⟨unrollable_waves, rfl, h.1.2.1, h.1.2.2.1, (h.2 1 {} (.ofSeed 2)).2.1⟩

end LoopText

end Danmaku
