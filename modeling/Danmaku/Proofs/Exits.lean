import Danmaku.Proofs.Ending
import Danmaku.Proofs.Nesting
import Danmaku.Proofs.Reporting
import Danmaku.Proofs.SingleOrder

/-! How an update ends. It is over when the last round is done, and what a last round can do leaves seven ways
out: past the last instruction with all loops closed, dead, paused, stopped, waiting, at the start of an endless
loop that has not waited, or at the very start again. Rounds before the last keep the player playing and mark no
yield. -/

namespace Danmaku

/-- As a reset leaves it: at the first instruction, with no loop open and nothing kept or counted. -/
structure Player.IsReset (p : Player) : Prop where
  pointer : p.pointer = 0
  frames : p.frames = []
  wait : p.wait = 0
  shots : p.shots = 0
  time : p.time = 0
  cache : p.cache = {}

/-- A program with an instruction starts by playing. -/
theorem Player.startStatus_eq_playing (p : Player) {i : Instruction}
    (here : p.program.instructions[p.pointer]? = some i) : startStatus p.program = .playing := by
  cases hl : p.program.instructions with
  | nil =>
      rw [hl] at here
      cases here
  | cons => simp only [startStatus, Program.isEmpty, hl, List.isEmpty_cons, Bool.false_eq_true, if_false]

namespace Turn

variable {globals : Blackboard} {t u v : Turn} {i : Instruction}

/-- The update ends right after an enabled instruction with this action. -/
def EndsAfter (globals : Blackboard) (t u : Turn) (action : Action) : Prop :=
  ∃ n v i, t.atRound? globals n = some v ∧ v.player.program.instructions[v.player.pointer]? = some i ∧
    i.enabled = true ∧ i.action = action ∧ v.round globals = .last u

/-- The ways out of an update that began as the first turn and ended as the second. -/
inductive Exit (globals : Blackboard) (t u : Turn) : Prop where
  | finished (status : u.player.status = .done) (pointer : u.player.pointer = u.player.program.length)
      (closed : u.player.frames = []) (unyielded : u.report.yielded = false)
  | died (status : u.player.status = .done) (after : EndsAfter globals t u .die)
      (unyielded : u.report.yielded = false)
  | paused (status : u.player.status = .paused) (yielded : u.report.yielded = true) (i : Instruction)
      (before : 0 < u.player.pointer ∧ u.player.program.instructions[u.player.pointer - 1]? = some i)
      (enabled : i.enabled = true) (action : i.action = .command .pause .self)
  | stopped (status : u.player.status = .stopped) (reset : u.player.IsReset)
      (after : EndsAfter globals t u (.command .stop .self)) (unyielded : u.report.yielded = false)
  | waiting (status : u.player.status = .playing) (wait : ¬u.player.wait ≤ 0)
      (after : u = t ∨ ∃ seconds, EndsAfter globals t u (.wait seconds)) (unyielded : u.report.yielded = false)
  | idle (status : u.player.status = .playing) (yielded : u.report.yielded = true) (frame : Frame)
      (innermost : u.player.frames.head? = some frame) (endless : frame.endless = true)
      (start : u.player.pointer = frame.start)
  | rebooted (status : u.player.status = .playing) (reset : u.player.IsReset)
      (after : EndsAfter globals t u (.command .reboot .self)) (unyielded : u.report.yielded = false)

/-- Playing, within the program, without a yield so far. -/
structure GoesOn (t : Turn) : Prop where
  status : t.player.status = .playing
  nested : t.player.Nested
  unyielded : t.report.yielded = false

theorem unyielded_execute (t : Turn) (globals : Blackboard) (i : Instruction) :
    (t.execute globals i).2.report.yielded = t.report.yielded := by
  obtain ⟨n, same⟩ := report_execute t globals i
  rw [same]
  rfl

theorem yielded_of_follow_more {flow : Flow} (more : u.follow flow = .more v) :
    v.report.yielded = u.report.yielded := by
  cases flow with
  | next | jump => exact Round.more.inj more ▸ rfl
  | _ => cases more

theorem Executed.status_of_more {flow : Flow} (h : Executed t i flow u) (more : u.follow flow = .more v) :
    v.player.status = t.player.status := by
  cases h with
  | plain _ same | pass _ same | enter _ same | stray _ _ same => exact Round.more.inj more ▸ same.status
  | close | again => exact Round.more.inj more ▸ rfl
  | _ => cases more

theorem GoesOn.of_more (h : t.GoesOn) (more : t.round globals = .more u) : u.GoesOn := by
  have rounded := rounded_round globals t
  have nested := rounded.nested_turn h.nested
  rw [more] at nested
  cases here : t.player.program.instructions[t.player.pointer]? with
  | none =>
      cases opened : t.player.frames with
      | nil =>
          rw [round_of_done here opened] at more
          cases more
      | cons frame frames =>
          rw [round_of_unterminated here opened] at more
          obtain rfl := Round.more.inj more
          exact ⟨h.status, nested, h.unyielded⟩
  | some i =>
      cases enabled : i.enabled with
      | false =>
          rw [round_of_disabled here enabled] at more
          obtain rfl := Round.more.inj more
          exact ⟨h.status, nested, h.unyielded⟩
      | true =>
          rw [round_of_enabled here enabled] at more
          exact ⟨((executed_execute t.count globals i).status_of_more more).trans h.status, nested,
            (yielded_of_follow_more more).trans ((unyielded_execute t.count globals i).trans h.unyielded)⟩

/-- The actions that can say so of where to go. -/
def From (action : Action) : Flow → Prop
  | .suspend => ∃ seconds, action = .wait seconds
  | .yield => action = .command .pause .self
  | .finish => action = .die
  | _ => True

theorem from_execute (t : Turn) (globals : Blackboard) (i : Instruction) :
    From i.action (t.execute globals i).1 := by
  rw [execute_eq_perform]
  unfold perform
  split
  · rename_i seconds action
    simp only [wait]
    split
    · exact ⟨seconds, action⟩
    · trivial
  · simp only [beginLoop]
    split <;> trivial
  · unfold endLoop
    split
    · trivial
    · split
      · split <;> trivial
      · split <;> trivial
  · rename_i action
    exact action
  · rename_i command action
    cases command with
    | pause => exact action
    | _ => trivial
  · trivial

/-- What the last instruction of an update leaves. -/
theorem exit_of_executed {n : Nat} (h : v.GoesOn) (reached : t.atRound? globals n = some v)
    (here : v.player.program.instructions[v.player.pointer]? = some i) (enabled : i.enabled = true)
    (last : v.round globals = .last u) : Exit globals t u := by
  have after (action : Action) (he : i.action = action) : EndsAfter globals t u action :=
    ⟨n, v, i, reached, here, enabled, he, last⟩
  have playing := v.player.startStatus_eq_playing here
  have origin := from_execute v.count globals i
  have unyielded := (unyielded_execute v.count globals i).trans h.unyielded
  have executed := executed_execute v.count globals i
  rw [round_of_enabled here enabled] at last
  generalize v.count.execute globals i = r at *
  obtain ⟨flow, w⟩ := r
  cases executed with
  | suspend _ same time pos =>
      obtain rfl := Round.last.inj last
      exact .waiting (same.status.trans h.status) (Single.not_le_of_lt pos)
        (.inr (origin.imp fun seconds action => after _ action)) unyielded
  | idle _ opened endless =>
      obtain rfl := Round.last.inj last
      exact .idle h.status rfl _ rfl endless rfl
  | die _ same =>
      obtain rfl := Round.last.inj last
      exact .died rfl (after _ origin) unyielded
  | pause =>
      obtain rfl := Round.last.inj last
      exact .paused rfl rfl i ⟨Nat.succ_pos _, here⟩ enabled origin
  | stop action stopped =>
      obtain rfl := Round.last.inj last
      have reset : w.player.IsReset := by
        rw [stopped]
        exact ⟨rfl, rfl, rfl, rfl, rfl, rfl⟩
      exact .stopped (congrArg Player.status stopped) reset (after _ action) unyielded
  | reboot action rebooted =>
      obtain rfl := Round.last.inj last
      have reset : w.player.IsReset := by
        rw [rebooted]
        exact ⟨rfl, rfl, rfl, rfl, rfl, rfl⟩
      exact .rebooted ((congrArg Player.status rebooted).trans playing) reset (after _ action) unyielded
  | _ => cases last

/-- What a last round leaves. -/
theorem exit_of_last {n : Nat} (h : v.GoesOn) (reached : t.atRound? globals n = some v)
    (last : v.round globals = .last u) : Exit globals t u := by
  cases here : v.player.program.instructions[v.player.pointer]? with
  | none =>
      cases opened : v.player.frames with
      | nil =>
          rw [round_of_done here opened] at last
          obtain rfl := Round.last.inj last
          have past : v.player.program.length ≤ v.player.pointer := List.getElem?_eq_none_iff.1 here
          exact .finished rfl (Nat.le_antisymm h.nested.position_le past) opened h.unyielded
      | cons frame frames =>
          rw [round_of_unterminated here opened] at last
          cases last
  | some i =>
      cases enabled : i.enabled with
      | false =>
          rw [round_of_disabled here enabled] at last
          cases last
      | true => exact exit_of_executed h reached here enabled last

theorem exit_run (h : t.GoesOn) : Exit globals t (t.run globals) := by
  obtain ⟨n, v, -, reached, last⟩ := exists_last_round globals t
  exact exit_of_last (atRound?_induction (fun _ _ => GoesOn.of_more) h reached) reached last

end Turn

namespace Player

/-- An update of a player that is playing, whatever its program and whatever calls came before, ends in one of these
ways, and in no other: the player is done past the last instruction with no loop open, or right after it died; it is
paused, with a yield, just past a pause of itself; it is stopped and reset; it is playing with time to wait; it is
playing, with a yield, at the start of its innermost loop, an endless one; or it is playing and reset, right after a
reboot of itself. No other way out yields. -/
theorem update_exits (program : Program) (emitter : ProjectileId) (slot : UInt32) (calls : List Call) (dt : Single)
    (globals : Blackboard) (swarm : Swarm) :
    let p := (ofProgram program emitter slot).after calls
    p.status = .playing → Turn.Exit globals (p.begin dt swarm) (p.update dt globals swarm) := by
  intro p playing
  have nested : p.Nested := after_induction nested_call (nested_ofProgram program emitter slot) calls
  by_cases runs : p.Runs dt
  · rw [update_of_runs runs]
    exact Turn.exit_run ⟨playing, nested, rfl⟩
  · rw [update_of_not_runs runs, if_pos playing]
    exact .waiting playing (fun wait => runs ⟨playing, wait⟩) (.inl rfl) rfl

/-- A pattern that reboots itself after a wait, paused and played again before its first update. -/
theorem rebooting_exits :
    let program : Program := ⟨1, [.wait 1, { kind := .rebootPattern .self }]⟩
    let p := (ofProgram program ⟨1⟩ 0).after [.command .pause, .command .play]
    p.status = .playing ∧ Turn.Exit {} (p.begin 0.5 (.ofSeed 1)) (p.update 0.5 {} (.ofSeed 1)) := by
  intro program p
  have playing : p.status = .playing := rfl
  exact ⟨playing, update_exits program ⟨1⟩ 0 [.command .pause, .command .play] 0.5 {} (.ofSeed 1) playing⟩

end Player

end Danmaku
