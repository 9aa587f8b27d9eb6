import Danmaku.Proofs.Beside
import Danmaku.Proofs.Ending
import Danmaku.Proofs.Reporting

/-! A loop without an end runs its body once. Without its begin, a program does the same round by round: at the begin,
only the one player opens the loop, and where it closes the loop at the end of the list, only the one moves. -/

namespace Danmaku

variable {program : Program} {k : Nat} {iterations : Param Int32} {endless : Bool} {p : Player} {t u : Turn}
  {c : Course} {i : Instruction} {globals : Blackboard}

/-- Two updates under way that show the same. The one of the whole program has closed so many loops more at the end of
the list. -/
structure InStep (program : Program) (k : Nat) (iterations : Param Int32) (extra : UInt32) (t t' : Turn) : Prop where
  player : ∃ c, t'.player = t.player.onto c ∧ Beside program k iterations t.player c
  swarm : t'.swarm = t.swarm
  effects : t'.effects = t.effects
  shots : t'.report.shots = t.report.shots
  yielded : t'.report.yielded = t.report.yielded
  repaired : t.report.repaired = t'.report.repaired + extra

/-- Two rounds after which the updates still show the same: they both go on, or are both over. -/
inductive Round.InStep (program : Program) (k : Nat) (iterations : Param Int32) (extra : UInt32) :
    Round → Round → Prop where
  | more {t t' : Turn} (h : Danmaku.InStep program k iterations extra t t') : InStep _ _ _ _ (more t) (more t')
  | last {t t' : Turn} (h : Danmaku.InStep program k iterations extra t t') : InStep _ _ _ _ (last t) (last t')

namespace InStep

variable {extra : UInt32} {t' u' : Turn}

theorem count (m : InStep program k iterations extra t t') : InStep program k iterations extra t.count t'.count :=
  { m with }

/-- Both go where an instruction says. -/
theorem follow (m : InStep program k iterations extra u u') (flow : Flow) :
    Round.InStep program k iterations extra (u.follow flow) (u'.follow flow) := by
  obtain ⟨c, player, b⟩ := m.player
  have jump (target : Nat) : InStep program k iterations extra (u.moveTo target) (u'.moveTo target) := by
    refine { m with player := ⟨{ c with pointer := target }, ?_, { b with pointer := rfl }⟩ }
    rw [Turn.moveTo, player]
    rfl
  have advance : InStep program k iterations extra u.advance u'.advance := by
    have pointer : u'.player.pointer = u.player.pointer := by
      rw [player]
      exact b.pointer
    rw [Turn.advance, Turn.advance, pointer]
    exact jump _
  have yield {v v' : Turn} (m : InStep program k iterations extra v v') :
      InStep program k iterations extra v.markYield v'.markYield := { m with yielded := rfl }
  cases flow with
  | next => exact .more advance
  | jump target => exact .more (jump target)
  | suspend => exact .last advance
  | yield => exact .last (yield advance)
  | yieldAt target => exact .last (yield (jump target))
  | halt => exact .last m
  | finish =>
      refine .last { m with player := ⟨c, ?_, { b with }⟩ }
      rw [Turn.setStatus, player]
      rfl

/-- An instruction other than the begin is executed in step. -/
theorem execute (m : InStep program k iterations extra t t') (h : program.RunsOnce k iterations endless)
    (nested : t.player.Nested) (here : program.instructions[t.player.pointer]? = some i)
    (enabled : i.enabled = true) (other : t.player.pointer ≠ k) (globals : Blackboard) :
    (t'.execute globals i).1 = (t.execute globals i).1 ∧
      InStep program k iterations extra (t.execute globals i).2 (t'.execute globals i).2 := by
  obtain ⟨c, player, b⟩ := m.player
  obtain ⟨c', executed, b'⟩ := b.execute h nested here enabled other globals
  obtain ⟨new, n, adds⟩ := Turn.adds_execute (t.onto c) globals i
  -- What the instruction adds to the past of the one, it adds to the past of the other.
  dsimp only at adds
  rw [executed] at adds
  have own : (t.onto c).execute globals i = _ := adds t.events (t.onto c).report
  have there := adds t'.events t'.report
  have same : (t.onto c).retold t'.events t'.report = t' := by
    obtain ⟨player', swarm', events', report'⟩ := t'
    obtain rfl : player' = t.player.onto c := player
    obtain rfl : swarm' = t.swarm := m.swarm
    rfl
  rw [executed] at own
  rw [same] at there
  have events : (t.execute globals i).2.events = t.events ++ new := congrArg (·.2.events) own
  have shots : (t.execute globals i).2.report.shots = t.report.shots + n := congrArg (·.2.report.shots) own
  have yielded : (t.execute globals i).2.report.yielded = t.report.yielded := congrArg (·.2.report.yielded) own
  have repaired : (t.execute globals i).2.report.repaired = t.report.repaired :=
    congrArg (·.2.report.repaired) own
  rw [there]
  refine ⟨rfl, ⟨c', rfl, b'⟩, rfl, ?_, ?_, m.yielded.trans yielded.symm, repaired.trans m.repaired⟩
  · change (t'.events ++ new).toList.filterMap Event.effect? = (t.execute globals i).2.effects
    have effects : t'.events.toList.filterMap Event.effect? = t.events.toList.filterMap Event.effect? := m.effects
    rw [Turn.effects, events, Array.toList_append, Array.toList_append, List.filterMap_append,
      List.filterMap_append, effects]
  · rw [shots, ← m.shots]
    rfl

end InStep

namespace Turn

/-- The next round closes the loop of this begin, at the end of the list. -/
def AtRepair (k : Nat) (t : Turn) : Prop :=
  t.player.program.instructions[t.player.pointer]? = none ∧ ∃ f fs, t.player.frames = f :: fs ∧ f.start = k + 1

/-- The update comes to a round that closes the loop of this begin at the end of the list. -/
def Repairs (globals : Blackboard) (k : Nat) (t : Turn) : Prop :=
  ∃ n u, t.atRound? globals n = some u ∧ u.AtRepair k

theorem AtRepair.repairs (h : t.AtRepair k) (globals : Blackboard) : t.Repairs globals k := ⟨0, t, rfl, h⟩

theorem repairs_iff_of_more (more : t.round globals = .more u) (other : ¬t.AtRepair k) :
    t.Repairs globals k ↔ u.Repairs globals k := by
  constructor
  · rintro ⟨n, v, reached, repair⟩
    cases n with
    | zero =>
        obtain rfl : t = v := Option.some.inj reached
        exact absurd repair other
    | succ n =>
        rw [atRound?_succ_of_more more] at reached
        exact ⟨n, v, reached, repair⟩
  · rintro ⟨n, v, reached, repair⟩
    exact ⟨n + 1, v, by rw [atRound?_succ_of_more more, reached], repair⟩

theorem not_repairs_of_last (last : t.round globals = .last u) (other : ¬t.AtRepair k) : ¬t.Repairs globals k := by
  rintro ⟨n, v, reached, repair⟩
  cases n with
  | zero =>
      obtain rfl : t = v := Option.some.inj reached
      exact other repair
  | succ n =>
      rw [atRound?_succ_of_last last] at reached
      cases reached

/-- At the end of the list no loop is opened, so one that is not open there is not closed there. -/
theorem not_repairs_of_closed (past : t.player.program.instructions[t.player.pointer]? = none)
    (closed : ∀ f ∈ t.player.frames, f.start ≠ k + 1) : ¬t.Repairs globals k := by
  rintro ⟨n, u, reached, -, f, fs, opened, own⟩
  let P (v : Turn) : Prop := v.player.program.instructions[v.player.pointer]? = none ∧
    ∀ f ∈ v.player.frames, f.start ≠ k + 1
  have more (v w : Turn) (hv : P v) (hround : v.round globals = .more w) : P w := by
    obtain ⟨past, closed⟩ := hv
    cases opened : v.player.frames with
    | nil =>
        rw [round_of_done past opened] at hround
        cases hround
    | cons f fs =>
        rw [round_of_unterminated past opened] at hround
        obtain rfl := Round.more.inj hround
        exact ⟨past, fun g hg => closed g (opened ▸ List.mem_cons_of_mem f hg)⟩
  obtain ⟨-, closed⟩ : P u := atRound?_induction more ⟨past, closed⟩ reached
  exact closed f (opened ▸ List.mem_cons_self) own

end Turn

namespace InStep

variable {extra : UInt32} {t' : Turn}

/-- At the begin, the one player opens the loop and the other passes the disabled begin by. -/
theorem round_begin (m : InStep program k iterations extra t t') (h : program.RunsOnce k iterations endless)
    (begin : t.player.pointer = k) (globals : Blackboard) :
    Round.InStep program k iterations extra (t.round globals) (t'.round globals) := by
  obtain ⟨c, player, b⟩ := m.count.player
  obtain ⟨i, here, enabled, action⟩ := h.begin
  have here' : t'.player.program.instructions[t'.player.pointer]? = some i.disabled := by
    rw [show t'.player = t.player.onto c from player]
    change c.program.instructions[c.pointer]? = _
    rw [b.disabled, b.pointer, show t.count.player.pointer = k from begin]
    exact Program.instructions_disabledAt_self here
  have disabled : i.disabled.enabled = false := rfl
  have here : t.player.program.instructions[t.player.pointer]? = some i := by
    rw [show t.player.program = program from b.whole, begin]
    exact here
  obtain ⟨turns, swarm, kept⟩ := b.value_begin h begin globals
  have entered : ¬((!endless) = true ∧ (t.count.value globals iterations .main).1.toInt ≤ 0) := by
    rintro ⟨counted, none⟩
    rcases turns with forever | some
    · rw [forever] at counted
      cases counted
    · omega
  rw [Turn.round_of_enabled here enabled, Turn.round_of_disabled here' disabled]
  simp only [Turn.execute_eq_perform, Turn.perform, action, Turn.beginLoop, if_neg entered]
  have same := Turn.undisturbed_value t.count globals iterations .main
  have asked := b.of_undisturbed same kept
  have own : (t.count.value globals iterations .main).2.player.pointer + 1 = k + 1 := by
    rw [same.pointer, show t.count.player.pointer = k from begin]
  have opened : InStep program k iterations extra ((t.count.value globals iterations .main).2.enter
      (t.count.value globals iterations .main).1.toInt endless) t' := by
    refine ⟨⟨c, player, { Facing.Alongside.cons_own asked own trivial with }⟩, m.swarm.trans swarm.symm, ?_, m.shots,
      m.yielded, m.repaired⟩
    exact m.effects.trans (Turn.effects_value t.count globals iterations .main).symm
  exact opened.follow .next

/-- At the end of the list, both close the same loop, or are done. -/
theorem round_past (m : InStep program k iterations extra t t') (h : program.RunsOnce k iterations endless)
    (past : t.player.program.instructions[t.player.pointer]? = none) (other : ¬t.AtRepair k)
    (globals : Blackboard) : Round.InStep program k iterations extra (t.round globals) (t'.round globals) := by
  obtain ⟨c, player, b⟩ := m.player
  have behind : t.player.pointer ≠ k := by
    intro begin
    have lt := h.unended.lt_length
    rw [b.whole, begin, List.getElem?_eq_none_iff] at past
    exact Nat.not_lt_of_le past lt
  have past' : t'.player.program.instructions[t'.player.pointer]? = none := by
    rw [player]
    change c.program.instructions[c.pointer]? = none
    rw [b.disabled, b.pointer, Program.instructions_disabledAt_of_ne behind, ← b.whole, past]
  cases opened : t.player.frames with
  | nil =>
      have opened' : t'.player.frames = [] := by
        rw [player]
        exact b.frames_eq_nil opened
      rw [Turn.round_of_done past opened, Turn.round_of_done past' opened']
      exact m.follow .finish
  | cons f fs =>
      have ne : f.start ≠ k + 1 := fun own => other ⟨past, f, fs, opened, own⟩
      obtain ⟨f', fs', opened', -, rest⟩ := b.exists_cons opened ne
      have opened' : t'.player.frames = f' :: fs' := by
        rw [player]
        exact opened'
      have repaired : (t.repair fs).report.repaired = (t'.repair fs').report.repaired + extra := by
        change t.report.repaired + 1 = t'.report.repaired + 1 + extra
        rw [m.repaired, UInt32.add_assoc, UInt32.add_comm extra, ← UInt32.add_assoc]
      rw [Turn.round_of_unterminated past opened, Turn.round_of_unterminated past' opened']
      refine .more ⟨⟨{ c with frames := fs' }, ?_, rest⟩, m.swarm, ?_, m.shots, m.yielded, repaired⟩
      · rw [Turn.repair, Turn.note, player]
        rfl
      · exact (Turn.effects_note t' _).trans (m.effects.trans (Turn.effects_note t _).symm)

/-- Unless the one closes the loop at the end of the list, both do a round. -/
theorem round (m : InStep program k iterations extra t t') (h : program.RunsOnce k iterations endless)
    (nested : t.player.Nested) (other : ¬t.AtRepair k) (globals : Blackboard) :
    Round.InStep program k iterations extra (t.round globals) (t'.round globals) := by
  by_cases begin : t.player.pointer = k
  · exact m.round_begin h begin globals
  · cases here : t.player.program.instructions[t.player.pointer]? with
    | none => exact m.round_past h here other globals
    | some i =>
        obtain ⟨c, player, b⟩ := m.player
        have here' : t'.player.program.instructions[t'.player.pointer]? = some i := by
          rw [player]
          change c.program.instructions[c.pointer]? = some i
          rw [b.disabled, b.pointer, Program.instructions_disabledAt_of_ne begin, ← b.whole, here]
        cases enabled : i.enabled with
        | false =>
            rw [Turn.round_of_disabled here enabled, Turn.round_of_disabled here' enabled]
            exact m.follow .next
        | true =>
            rw [Turn.round_of_enabled here enabled, Turn.round_of_enabled here' enabled]
            rw [b.whole] at here
            obtain ⟨flow, executed⟩ := m.count.execute h nested here enabled begin globals
            rw [flow]
            exact executed.follow _

/-- The one closes the loop at the end of the list, and the other is where it was. -/
theorem repair (m : InStep program k iterations extra t t') (own : t.AtRepair k) (globals : Blackboard) :
    ∃ u, t.round globals = .more u ∧ InStep program k iterations (extra + 1) u t' ∧
      (t.player.Nested → ¬u.Repairs globals k) := by
  obtain ⟨past, f, fs, opened, own⟩ := own
  obtain ⟨c, player, b⟩ := m.player
  refine ⟨t.repair fs, Turn.round_of_unterminated past opened, ?_, fun nested => ?_⟩
  · refine ⟨⟨c, player, b.tail_of_own opened own⟩, m.swarm, ?_, m.shots, m.yielded, ?_⟩
    · exact m.effects.trans (Turn.effects_note t _).symm
    · change t.report.repaired + 1 = _
      rw [m.repaired, UInt32.add_assoc]
  · refine Turn.not_repairs_of_closed past fun g hg again => ?_
    have sorted := nested.pairwise_start
    rw [opened, List.map_cons, own, ← again] at sorted
    exact Nat.lt_irrefl _ (List.rel_of_pairwise_cons sorted (List.mem_map_of_mem hg))

/-- Both updates end in step. -/
theorem run {extra : UInt32} {t t' : Turn} (m : InStep program k iterations extra t t')
    (h : program.RunsOnce k iterations endless) (nested : t.player.Nested) (globals : Blackboard) :
    ∃ extra', InStep program k iterations extra' (t.run globals) (t'.run globals) ∧
      (extra' = extra + 1 ∧ t.Repairs globals k ∨ extra' = extra ∧ ¬t.Repairs globals k) := by
  have nested' := (Turn.rounded_round globals t).nested_turn nested
  by_cases own : t.AtRepair k
  · obtain ⟨u, hround, stepped, never⟩ := m.repair own globals
    rw [hround] at nested'
    obtain ⟨extra', ended, ⟨-, again⟩ | ⟨rfl, -⟩⟩ := stepped.run h nested' globals
    · exact absurd again (never nested)
    · refine ⟨extra + 1, ?_, .inl ⟨rfl, own.repairs globals⟩⟩
      rwa [Turn.run_eq_round globals t, hround]
  · have stepped := m.round h nested own globals
    rw [Turn.run_eq_round globals t, Turn.run_eq_round globals t']
    cases hround : t.round globals with
    | last u =>
        rw [hround] at stepped
        generalize t'.round globals = r at stepped
        cases stepped with
        | last ended => exact ⟨extra, ended, .inr ⟨rfl, Turn.not_repairs_of_last hround own⟩⟩
    | more u =>
        rw [hround] at stepped nested'
        generalize t'.round globals = r at stepped
        cases stepped with
        | more stepped =>
            rw [Turn.repairs_iff_of_more hround own]
            exact stepped.run h nested' globals
termination_by t.player.rank
decreasing_by
  · exact Turn.rank_lt_of_round hround
  · exact Turn.rank_lt_of_round hround

end InStep

namespace Beside

theorem update (b : Beside program k iterations p c) (h : program.RunsOnce k iterations endless) (nested : p.Nested)
    (dt : Single) (globals : Blackboard) (swarm : Swarm) :
    ∃ extra, InStep program k iterations extra (p.update dt globals swarm) ((p.onto c).update dt globals swarm) ∧
      (extra = 1 ∧ (p.Runs dt ∧ (p.begin dt swarm).Repairs globals k) ∨
        extra = 0 ∧ ¬(p.Runs dt ∧ (p.begin dt swarm).Repairs globals k)) := by
  have begun : InStep program k iterations 0 (p.begin dt swarm) ((p.onto c).begin dt swarm) :=
    ⟨⟨c, rfl, { b with }⟩, rfl, rfl, rfl, rfl, rfl⟩
  by_cases runs : p.Runs dt
  · have runs' : (p.onto c).Runs dt := runs
    rw [Player.update_of_runs runs, Player.update_of_runs runs']
    obtain ⟨extra, ended, ⟨rfl, repairs⟩ | ⟨rfl, never⟩⟩ := begun.run h nested globals
    · exact ⟨_, ended, .inl ⟨rfl, runs, repairs⟩⟩
    · exact ⟨_, ended, .inr ⟨rfl, fun repairs => never repairs.2⟩⟩
  · have runs' : ¬(p.onto c).Runs dt := runs
    rw [Player.update_of_not_runs runs, Player.update_of_not_runs runs']
    refine ⟨0, ?_, .inr ⟨rfl, fun repairs => runs repairs.1⟩⟩
    change InStep program k iterations 0 _ (if p.status = .playing then _ else _)
    split
    · exact begun
    · exact ⟨⟨c, rfl, b⟩, rfl, rfl, rfl, rfl, rfl⟩

theorem ofProgram (program : Program) (k : Nat) (iterations : Param Int32) (emitter : ProjectileId)
    (slot : UInt32) : ∃ c, Player.ofProgram (program.disabledAt k) emitter slot =
        (Player.ofProgram program emitter slot).onto c ∧
      Beside program k iterations (Player.ofProgram program emitter slot) c := by
  exact (program.facing k iterations).alongside_ofProgram _ rfl (startStatus_disabledAt program k) emitter slot

/-- Whatever calls the two players have seen, they are beside each other. -/
theorem after (b : Beside program k iterations p c) (h : program.RunsOnce k iterations endless) (nested : p.Nested)
    (calls : List Call) :
    ∃ c', (p.onto c).after calls = (p.after calls).onto c' ∧ Beside program k iterations (p.after calls) c' := by
  induction calls generalizing p c with
  | nil => exact ⟨c, rfl, b⟩
  | cons x calls ih =>
      have called : ∃ c', (p.onto c).call x = (p.call x).onto c' ∧ Beside program k iterations (p.call x) c' := by
        cases x with
        | update dt globals swarm =>
            obtain ⟨extra, ended, -⟩ := b.update h nested dt globals swarm
            exact ended.player
        | command command => exact (relation program k iterations).command b command
      obtain ⟨c', same, b'⟩ := called
      change ∃ c'', ((p.onto c).call x).after calls = _ ∧ _
      rw [same]
      exact ih b' (Player.nested_call p x nested)

end Beside

namespace Turn

theorem repaired_execute (t : Turn) (globals : Blackboard) (i : Instruction) :
    (t.execute globals i).2.report.repaired = t.report.repaired := by
  obtain ⟨n, same⟩ := report_execute t globals i
  rw [same]
  rfl

theorem repaired_follow (u : Turn) (flow : Flow) : (u.follow flow).turn.report.repaired = u.report.repaired := by
  cases flow <;> rfl

/-- Where every loop has an end, no loop is open at the end of the list, and none is closed there. -/
theorem repaired_round (matched : t.player.program.openLoops t.player.program.length = [])
    (nested : t.player.Nested) (globals : Blackboard) :
    (t.round globals).turn.report.repaired = t.report.repaired := by
  cases here : t.player.program.instructions[t.player.pointer]? with
  | none =>
      have past : t.player.pointer = t.player.program.length :=
        Nat.le_antisymm nested.position_le (List.getElem?_eq_none_iff.1 here)
      have closed : t.player.frames = [] := by
        have inner := nested.suffix
        rw [past, matched] at inner
        exact List.map_eq_nil_iff.1 (List.suffix_nil.1 inner)
      rw [round_of_done here closed]
      rfl
  | some i =>
      cases enabled : i.enabled with
      | false =>
          rw [round_of_disabled here enabled]
          rfl
      | true => rw [round_of_enabled here enabled, repaired_follow, repaired_execute, count]

end Turn

theorem Player.repaired_update (matched : p.program.openLoops p.program.length = []) (nested : p.Nested)
    (dt : Single) (globals : Blackboard) (swarm : Swarm) : (p.update dt globals swarm).report.repaired = 0 := by
  by_cases runs : p.Runs dt
  · rw [update_of_runs runs]
    let P (t : Turn) : Prop := t.player.program = p.program ∧ t.player.Nested ∧ t.report.repaired = 0
    have round (t : Turn) (ht : P t) : P (t.round globals).turn := by
      obtain ⟨program, nested, repaired⟩ := ht
      have rounded := Turn.rounded_round globals t
      refine ⟨rounded.pattern_turn.program.trans program, rounded.nested_turn nested, ?_⟩
      rw [Turn.repaired_round (by rw [program]; exact matched) nested, repaired]
    exact (Turn.run_invariant (P := P) round (p.begin dt swarm) ⟨rfl, nested, rfl⟩).2.2
  · rw [update_of_not_runs runs]
    split <;> rfl

namespace Program

/-- A loop without an end runs its body once: disabling its begin changes nothing that the host sees. This is so for
every enabled begin that is still open at the end of the list, in a program that draws nothing again by the iterations
of a loop, if the loop is endless and its count is drawn without a trace in the swarm, or if its count is fixed and
positive. After the same calls, the two players have the same status, time, wait and shots and are at the same place,
and every update gives the same effects in the same order, leaves the same swarm and yields or not. It reports one
more loop as closed at the end of the list if it comes to a round that closes this one there, and else as many. In a
program in which every loop has an end, no update reports any. -/
theorem unended_loop_runs_once (program : Program) (emitter : ProjectileId) (slot : UInt32) (calls : List Call) :
    let p := (Player.ofProgram program emitter slot).after calls
    (∀ k iterations endless, program.RunsOnce k iterations endless →
      let q := (Player.ofProgram (program.disabledAt k) emitter slot).after calls
      (q.status = p.status ∧ q.pointer = p.pointer ∧ q.time = p.time ∧ q.wait = p.wait ∧ q.shots = p.shots) ∧
      ∀ (dt : Single) (globals : Blackboard) (swarm : Swarm),
        let u := p.update dt globals swarm
        let u' := q.update dt globals swarm
        let repairs := p.Runs dt ∧ (p.begin dt swarm).Repairs globals k
        u'.effects = u.effects ∧ u'.swarm = u.swarm ∧ u'.report.shots = u.report.shots ∧
        u'.report.yielded = u.report.yielded ∧ u'.player.status = u.player.status ∧
        u'.player.time = u.player.time ∧ u'.player.wait = u.player.wait ∧ u'.player.shots = u.player.shots ∧
        (repairs → u.report.repaired = u'.report.repaired + 1) ∧
        (¬repairs → u.report.repaired = u'.report.repaired)) ∧
    (program.openLoops program.length = [] →
      ∀ (dt : Single) (globals : Blackboard) (swarm : Swarm), (p.update dt globals swarm).report.repaired = 0) := by
  intro p
  have nested : p.Nested :=
    Player.after_induction Player.nested_call (Player.nested_ofProgram program emitter slot) calls
  have same : p.program = program := Player.program_after _ calls
  refine ⟨fun k iterations endless h => ?_, fun matched dt globals swarm => ?_⟩
  · intro q
    obtain ⟨c₀, start, b₀⟩ := Beside.ofProgram program k iterations emitter slot
    obtain ⟨c, after, b⟩ := b₀.after h (Player.nested_ofProgram program emitter slot) calls
    have hq : q = p.onto c := by rw [← after, ← start]
    refine ⟨by rw [hq]; exact ⟨rfl, b.pointer, rfl, rfl, rfl⟩, fun dt globals swarm => ?_⟩
    intro u u' repairs
    obtain ⟨extra, ended, told⟩ := b.update h nested dt globals swarm
    rw [← hq] at ended
    obtain ⟨c', player, -⟩ := ended.player
    have player : u'.player = u.player.onto c' := player
    refine ⟨ended.effects, ended.swarm, ended.shots, ended.yielded, ?_⟩
    rw [player]
    refine ⟨rfl, rfl, rfl, rfl, fun closed => ?_, fun never => ?_⟩
    · obtain ⟨rfl, -⟩ := told.resolve_right fun other => other.2 closed
      exact ended.repaired
    · obtain ⟨rfl, -⟩ := told.resolve_left fun other => never other.2
      exact ended.repaired.trans (UInt32.add_zero _)
  · exact Player.repaired_update (by rw [same]; exact matched) nested dt globals swarm

/-- A toggle in a loop that has no end. -/
def openToggle : Program where
  id := 1
  instructions := [.beginLoop 2, { kind := .enableHoming }]

theorem runsOnce_openToggle : openToggle.RunsOnce 0 (.fixed 2) false where
  begin := ⟨.beginLoop 2, rfl, rfl, rfl⟩
  unended := by decide
  turns := .inr ⟨rfl, by decide⟩
  free := by
    intro i hi q hq
    rcases List.mem_pair.1 hi with rfl | rfl
    · obtain rfl := List.mem_singleton.1 hq
      exact nofun
    · exact absurd hq List.not_mem_nil

/-- The first update closes the loop at the end of the list. With an end it has none to close. -/
theorem openToggle_runs_once :
    let p := Player.ofProgram openToggle ⟨1⟩ 0
    let q := Player.ofProgram (openToggle.disabledAt 0) ⟨1⟩ 0
    let closed : Program := ⟨1, [.beginLoop 2, { kind := .enableHoming }, .endLoop]⟩
    openToggle.RunsOnce 0 (.fixed 2) false ∧ closed.openLoops closed.length = [] ∧
      (p.Runs 0 ∧ (p.begin 0 (.ofSeed 1)).Repairs {} 0) ∧
      (q.update 0 {} (.ofSeed 1)).effects = (p.update 0 {} (.ofSeed 1)).effects ∧
      (p.update 0 {} (.ofSeed 1)).report.repaired = (q.update 0 {} (.ofSeed 1)).report.repaired + 1 ∧
      ((Player.ofProgram closed ⟨1⟩ 0).update 0 {} (.ofSeed 1)).report.repaired = 0 := by
  intro p q closed
  have matched : closed.openLoops closed.length = [] := by decide
  -- The third round is past the list, with the loop open.
  have shown : (((p.begin 0 (.ofSeed 1)).atRound? {} 2).map fun u =>
      decide (u.player.program.instructions[u.player.pointer]?.isNone = true ∧
        u.player.frames.map (·.start) = [1])) = some true := by
    decide +kernel
  obtain ⟨u, reached, shown⟩ := Option.map_eq_some_iff.1 shown
  obtain ⟨past, starts⟩ := of_decide_eq_true shown
  obtain ⟨f, fs, opened, own, -⟩ := List.map_eq_cons_iff.1 starts
  have repairs : p.Runs 0 ∧ (p.begin 0 (.ofSeed 1)).Repairs {} 0 :=
    ⟨by decide +kernel, 2, u, reached, Option.isNone_iff_eq_none.1 past, f, fs, opened, own⟩
  obtain ⟨-, same⟩ := (unended_loop_runs_once openToggle ⟨1⟩ 0 []).1 0 (.fixed 2) false runsOnce_openToggle
  obtain ⟨effects, -, -, -, -, -, -, -, repaired, -⟩ := same 0 {} (.ofSeed 1)
  exact ⟨runsOnce_openToggle, matched, repairs, effects, repaired repairs,
    (unended_loop_runs_once closed ⟨1⟩ 0 []).2 matched 0 {} (.ofSeed 1)⟩

/-- A random wait in an endless loop without an end, whose count is random too. -/
def restless : Program where
  id := 1
  instructions := [
    { kind := .beginLoop { tree := .between 1 3 .random } true },
    { kind := .wait { tree := .between 1 9 .random } }]

/-- The count of the endless loop is drawn, though nothing asks for it, and the draws after it are others. -/
theorem restless_waits_otherwise :
    let p := Player.ofProgram restless ⟨1⟩ 0
    let q := Player.ofProgram (restless.disabledAt 0) ⟨1⟩ 0
    (∃ i iterations, restless.instructions[0]? = some i ∧ i.enabled = true ∧ i.action = .beginLoop iterations true) ∧
      restless.Unended 0 ∧
      (∀ i ∈ restless.instructions, ∀ q ∈ i.queries, ∀ rule, q.2.param.reroll ≠ .atLoops rule) ∧
      (q.update 0.5 {} (.ofSeed 1)).player.wait ≠ (p.update 0.5 {} (.ofSeed 1)).player.wait := by
  intro p q
  have shown : (((p.begin 0.5 (.ofSeed 1)).lastAt? {} 1).bind fun u =>
      ((q.begin 0.5 (.ofSeed 1)).lastAt? {} 1).map fun v => decide (v.player.wait ≠ u.player.wait)) = some true := by
    decide +kernel
  obtain ⟨u, hu, shown⟩ := Option.bind_eq_some_iff.1 shown
  obtain ⟨v, hv, shown⟩ := Option.map_eq_some_iff.1 shown
  refine ⟨⟨_, _, rfl, rfl, rfl⟩, by decide, ?_, ?_⟩
  · intro i hi q hq
    rcases List.mem_pair.1 hi with rfl | rfl
    · obtain rfl := List.mem_singleton.1 hq
      exact nofun
    · obtain rfl := List.mem_singleton.1 hq
      exact nofun
  · rw [Player.update_of_runs (p := p) (by decide +kernel), Player.update_of_runs (p := q) (by decide +kernel),
      Turn.run_eq_of_lastAt? hu, Turn.run_eq_of_lastAt? hv]
    exact of_decide_eq_true shown

end Program

end Danmaku
