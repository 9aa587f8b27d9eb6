import Danmaku.Player.Update

/-! An update in rounds. A round closes a loop at the end of the list, passes a disabled instruction by, or
executes an enabled one and goes where it says; the update goes on from its outcome or ends with it. What an
instruction can do to the course of a player, that is to its place in the program, its open loops and its
status, is said once, by `Executed`. A life is what a player becomes by updates and commands in any order. -/

namespace Danmaku

/-- What a round of an update comes to. -/
inductive Round where
  /-- The update goes on from here. -/
  | more (t : Turn)
  /-- The update ends with this. -/
  | last (t : Turn)

def Round.turn : Round → Turn
  | more t | last t => t

namespace Turn

/-- Goes where an instruction says. -/
def follow (u : Turn) : Flow → Round
  | .next => .more u.advance
  | .jump target => .more (u.moveTo target)
  | .suspend => .last u.advance
  | .yield => .last u.advance.markYield
  | .yieldAt target => .last (u.moveTo target).markYield
  | .halt => .last u
  | .finish => .last (u.setStatus .done)

def round (globals : Blackboard) (t : Turn) : Round :=
  match t.player.program.instructions[t.player.pointer]? with
  | none =>
    match t.player.frames with
    | [] => .last (t.setStatus .done)
    | _ :: frames => .more (t.repair frames)
  | some i =>
    if i.enabled then (t.count.execute globals i).2.follow (t.count.execute globals i).1
    else .more t.advance

section

variable {globals : Blackboard} {t : Turn} {i : Instruction}

theorem round_of_done (past : t.player.program.instructions[t.player.pointer]? = none)
    (closed : t.player.frames = []) : t.round globals = .last (t.setStatus .done) := by
  simp only [round, past, closed]

theorem round_of_unterminated {frame : Frame} {frames : List Frame}
    (past : t.player.program.instructions[t.player.pointer]? = none)
    (opened : t.player.frames = frame :: frames) : t.round globals = .more (t.repair frames) := by
  simp only [round, past, opened]

theorem round_of_disabled (here : t.player.program.instructions[t.player.pointer]? = some i)
    (disabled : i.enabled = false) : t.round globals = .more t.advance := by
  simp only [round, here, disabled, Bool.false_eq_true, if_false]

theorem round_of_enabled (here : t.player.program.instructions[t.player.pointer]? = some i)
    (enabled : i.enabled = true) :
    t.round globals = (t.count.execute globals i).2.follow (t.count.execute globals i).1 := by
  simp only [round, here, enabled, if_true]

end

/-- Running is doing rounds until the last. -/
theorem run_eq_round (globals : Blackboard) (t : Turn) :
    t.run globals = match t.round globals with
      | .more u => u.run globals
      | .last u => u := by
  rw [run]
  unfold round
  split
  · rename_i hi
    rw [hi]
    split
    · rename_i hf
      rw [hf]
    · rename_i hf
      rw [hf]
  · rename_i i hi
    rw [hi]
    dsimp only
    split
    · split <;> rename_i he <;> rw [he] <;> rfl
    · rfl

theorem rank_lt_of_round {globals : Blackboard} {t u : Turn} (h : t.round globals = .more u) :
    u.player.rank < t.player.rank := by
  unfold round at h
  split at h
  · split at h
    · cases h
    · rename_i hf
      cases h
      exact rank_repair hf
  · rename_i i hi
    have hp := (List.getElem?_eq_some_iff.1 hi).1
    split at h
    · have hl := lowers_execute t.count globals i hp
      generalize t.count.execute globals i = r at h hl
      obtain ⟨flow, v⟩ := r
      cases flow with
      | next =>
          cases h
          exact hl
      | jump target =>
          cases h
          exact hl
      | _ => cases h
    · cases h
      exact rank_advance (.refl t) hp

/-- The turns at which the rounds of the update begin, in order. -/
def rounds (globals : Blackboard) (t : Turn) : List Turn :=
  t :: match _hr : t.round globals with
    | .more u => u.rounds globals
    | .last _ => []
termination_by t.player.rank
decreasing_by exact rank_lt_of_round _hr

theorem rounds_eq (globals : Blackboard) (t : Turn) :
    t.rounds globals = t :: match t.round globals with
      | .more u => u.rounds globals
      | .last _ => [] := by
  rw [rounds]
  split <;> rename_i hr <;> rw [hr]

/-- What every round carries over, of the rounds done and where they lead, holds of all rounds where the update ends. -/
theorem rounds_induction {globals : Blackboard} {P Q : List Turn → Turn → Prop}
    (more : ∀ done t u, P done t → t.round globals = .more u → P (done ++ [t]) u)
    (last : ∀ done t u, P done t → t.round globals = .last u → Q (done ++ [t]) u) (done : List Turn) (t : Turn)
    (h : P done t) : Q (done ++ t.rounds globals) (t.run globals) := by
  rw [rounds_eq, run_eq_round]
  cases hr : t.round globals with
  | more u =>
      have rest := rounds_induction more last (done ++ [t]) u (more done t u h hr)
      rwa [List.append_assoc] at rest
  | last u => exact last done t u h hr
termination_by t.player.rank
decreasing_by exact rank_lt_of_round hr

/-- What every round carries over holds where the update ends. -/
theorem run_induction {globals : Blackboard} {P Q : Turn → Prop}
    (more : ∀ t u, P t → t.round globals = .more u → P u)
    (last : ∀ t u, P t → t.round globals = .last u → Q u) (t : Turn) (h : P t) : Q (t.run globals) :=
  rounds_induction (P := fun _ => P) (Q := fun _ => Q) (fun _ => more) (fun _ => last) [] t h

theorem turn_of_more {globals : Blackboard} {t u : Turn} (h : t.round globals = .more u) :
    (t.round globals).turn = u := by rw [h, Round.turn]

theorem turn_of_last {globals : Blackboard} {t u : Turn} (h : t.round globals = .last u) :
    (t.round globals).turn = u := by rw [h, Round.turn]

/-- What a round carries over, whether it is the last one or not, holds of all rounds and where they end. -/
theorem rounds_invariant {globals : Blackboard} {P : List Turn → Turn → Prop}
    (round : ∀ done t, P done t → P (done ++ [t]) (t.round globals).turn) (t : Turn) (h : P [] t) :
    P (t.rounds globals) (t.run globals) :=
  rounds_induction (P := P) (Q := P) (fun done t _ h hr => turn_of_more hr ▸ round done t h)
    (fun done t _ h hr => turn_of_last hr ▸ round done t h) [] t h

theorem run_invariant {globals : Blackboard} {P : Turn → Prop} (round : ∀ t, P t → P (t.round globals).turn)
    (t : Turn) (h : P t) : P (t.run globals) :=
  rounds_invariant (P := fun _ => P) (fun _ => round) t h

/-- The same place and status, the same open loops, and no stamp given. -/
structure Undisturbed (t u : Turn) : Prop extends SameCourse t u where
  emitter : u.player.emitter = t.player.emitter
  slot : u.player.slot = t.player.slot
  status : u.player.status = t.player.status
  lastStamp : u.player.lastStamp = t.player.lastStamp

theorem Undisturbed.refl (t : Turn) : Undisturbed t t := ⟨.refl t, rfl, rfl, rfl, rfl⟩

theorem Undisturbed.trans {t u v : Turn} (h : Undisturbed t u) (h' : Undisturbed u v) : Undisturbed t v where
  program := h'.program.trans h.program
  pointer := h'.pointer.trans h.pointer
  frames := h'.frames.trans h.frames
  emitter := h'.emitter.trans h.emitter
  slot := h'.slot.trans h.slot
  status := h'.status.trans h.status
  lastStamp := h'.lastStamp.trans h.lastStamp

/-- What is kept, the wait and the shots fired are not of the course. -/
theorem Undisturbed.of_player {t u : Turn} {cache : DrawCache} {wait : Single} {shots : UInt32}
    (h : u.player = { t.player with cache, wait, shots }) : Undisturbed t u := by
  refine ⟨⟨?_, ?_, ?_⟩, ?_, ?_, ?_, ?_⟩
  all_goals rw [h]

theorem undisturbed_value {α : Type} [Blendable α] (t : Turn) (globals : Blackboard) (p : Param α)
    (channel : Channel) : Undisturbed t (t.value globals p channel).2 := .of_player rfl

theorem undisturbed_addCustom (t : Turn) (name : String) (delta : Single) :
    Undisturbed t (t.addCustom name delta) := by
  unfold addCustom
  split
  · exact .refl t
  · split <;> exact .of_player rfl

theorem undisturbed_edit (t : Turn) (globals : Blackboard) (e : Edit Param) (timing : Timing) :
    Undisturbed t (t.edit globals e timing) := by
  cases timing with
  | instant => exact .of_player rfl
  | progressive duration easing =>
      simp only [edit]
      split <;> exact .of_player rfl

theorem undisturbed_act (t : Turn) (globals : Blackboard) (action : Action) (timing : Timing) :
    Undisturbed t (t.act globals action timing) := by
  cases action with
  | edit e => exact undisturbed_edit t globals e timing
  | addCustom name delta =>
      exact (undisturbed_value t globals delta .main).trans
        (undisturbed_addCustom _ name (t.value globals delta .main).1)
  | _ => exact .of_player rfl

/-- Opens a loop at the pointer. -/
def enter (t : Turn) (count : Int) (endless : Bool) : Turn :=
  let stamp := t.player.lastStamp + 1
  let frame : Frame := { start := t.player.pointer + 1, remaining := count, endless, stamp }
  { t with player := { t.player with frames := frame :: t.player.frames, lastStamp := stamp } }

/-- Marks the open loops and waits. -/
def suspend (t : Turn) (time : Single) : Turn :=
  { t with player := { t.player with wait := time, frames := t.player.frames.map ({ · with waited := true }) } }

end Turn

/-- A command of a pattern to itself that resets it. -/
def Action.isReset : Action → Bool
  | command .stop .self | command .reboot .self => true
  | _ => false

/-- Neither the begin nor the end of a loop, nor a reset. -/
structure Action.Plain (a : Action) : Prop where
  not_begin : a.isLoopBegin = false
  not_end : a.isLoopEnd = false
  not_reset : a.isReset = false

namespace Turn

/-- What executing an instruction can do to the course of a player, and where the instruction says to go. -/
inductive Executed (t : Turn) (i : Instruction) : Flow → Turn → Prop where
  | plain {u : Turn} (plain : i.action.Plain) (same : Undisturbed t u) : Executed t i .next u
  | suspend {u : Turn} (plain : i.action.Plain) (same : Undisturbed t u) (time : Single) (pos : 0 < time) :
      Executed t i .suspend (u.suspend time)
  | pass {u : Turn} (begin : i.action.isLoopBegin = true) (same : Undisturbed t u) :
      Executed t i (.jump (t.player.program.afterLoop t.player.pointer)) u
  | enter {u : Turn} (begin : i.action.isLoopBegin = true) (same : Undisturbed t u) (count : Int)
      (endless : Bool) (turns : endless = true ∨ 0 < count) : Executed t i .next (u.enter count endless)
  | stray {u : Turn} (last : i.action.isLoopEnd = true) (frames : t.player.frames = [])
      (same : Undisturbed t u) : Executed t i .next u
  | close {frame : Frame} {frames : List Frame} (last : i.action.isLoopEnd = true)
      (opened : t.player.frames = frame :: frames) (counted : frame.endless = false)
      (ended : frame.remaining ≤ 1) : Executed t i .next { t with player := { t.player with frames } }
  | again {frame : Frame} {frames : List Frame} {remaining : Int} (last : i.action.isLoopEnd = true)
      (opened : t.player.frames = frame :: frames)
      (turns : frame.endless = true ∧ frame.waited = true ∧ remaining = frame.remaining ∨
        frame.endless = false ∧ 1 < frame.remaining ∧ remaining = frame.remaining - 1) :
      Executed t i (.jump frame.start) (t.again frame frames remaining)
  | idle {frame : Frame} {frames : List Frame} (last : i.action.isLoopEnd = true)
      (opened : t.player.frames = frame :: frames) (endless : frame.endless = true)
      (idle : frame.waited = false) : Executed t i (.yieldAt frame.start) (t.again frame frames frame.remaining)
  | die {u : Turn} (plain : i.action.Plain) (same : Undisturbed t u) : Executed t i .finish u
  | pause (plain : i.action.Plain) :
      Executed t i .yield { t with player := { t.player with status := .paused } }
  | stop {u : Turn} (action : i.action = .command .stop .self) (stopped : u.player = t.player.stop) :
      Executed t i .halt u
  | reboot {u : Turn} (action : i.action = .command .reboot .self) (rebooted : u.player = t.player.reboot) :
      Executed t i .halt u

theorem executed_wait (t : Turn) (globals : Blackboard) (i : Instruction) (seconds : Param Single)
    (plain : i.action.Plain) : Executed t i (t.wait globals seconds).1 (t.wait globals seconds).2 := by
  unfold wait
  by_cases h : 0 < (t.value globals seconds .main).1.raisedTo 0
  · simp only [h, if_true]
    exact .suspend (u := (t.value globals seconds .main).2) plain (undisturbed_value t globals seconds .main)
      _ h
  · simp only [h, if_false]
    exact .plain plain (.of_player rfl)

theorem executed_beginLoop (t : Turn) (globals : Blackboard) (i : Instruction) (iterations : Param Int32)
    (endless : Bool) (begin : i.action.isLoopBegin = true) :
    Executed t i (t.beginLoop globals iterations endless).1 (t.beginLoop globals iterations endless).2 := by
  have same := undisturbed_value t globals iterations .main
  simp only [beginLoop]
  split
  · exact .pass begin same
  · rename_i h
    refine .enter begin same _ endless ?_
    cases endless with
    | true => exact Or.inl rfl
    | false => exact Or.inr (by simpa using h)

theorem executed_endLoop (t : Turn) (i : Instruction) (last : i.action.isLoopEnd = true) :
    Executed t i t.endLoop.1 t.endLoop.2 := by
  unfold endLoop
  split
  · rename_i hf
    exact .stray last hf (.of_player rfl)
  · rename_i frame frames hf
    cases he : frame.endless with
    | true =>
        cases hw : frame.waited with
        | true => exact .again last hf (.inl ⟨he, hw, rfl⟩)
        | false => exact .idle last hf he hw
    | false =>
        by_cases hr : frame.remaining ≤ 1
        · simp only [Bool.false_eq_true, if_false, hr, if_true]
          exact .close last hf he hr
        · simp only [Bool.false_eq_true, if_false, hr]
          exact .again last hf (.inr ⟨he, by omega, rfl⟩)

theorem executed_commandSelf (t : Turn) (i : Instruction) (command : Command)
    (action : i.action = .command command .self) :
    Executed t i (t.commandSelf command).1 (t.commandSelf command).2 := by
  cases command with
  | play => exact .plain (by rw [action]; exact ⟨rfl, rfl, rfl⟩) (.refl t)
  | pause => exact .pause (by rw [action]; exact ⟨rfl, rfl, rfl⟩)
  | stop => exact .stop action rfl
  | reboot => exact .reboot action rfl

theorem executed_execute (t : Turn) (globals : Blackboard) (i : Instruction) :
    Executed t i (t.execute globals i).1 (t.execute globals i).2 := by
  rw [execute_eq_perform]
  unfold perform
  split
  · rename_i seconds h
    exact executed_wait t globals i seconds (by rw [h]; exact ⟨rfl, rfl, rfl⟩)
  · rename_i iterations endless h
    exact executed_beginLoop t globals i iterations endless (by rw [h]; rfl)
  · rename_i h
    exact executed_endLoop t i (by rw [h]; rfl)
  · rename_i h
    exact .die (by rw [h]; exact ⟨rfl, rfl, rfl⟩) (.of_player rfl)
  · rename_i command h
    exact executed_commandSelf t i command h
  · rename_i hwait hbegin hend hdie hself
    refine .plain ?_ (undisturbed_act t globals _ _)
    cases ha : i.action with
    | beginLoop iterations endless => exact absurd ha (hbegin iterations endless)
    | endLoop => exact absurd ha hend
    | command command recipient =>
        cases recipient with
        | self => exact absurd ha (hself command)
        | _ => exact ⟨rfl, rfl, by cases command <;> rfl⟩
    | _ => exact ⟨rfl, rfl, rfl⟩

/-- The same program, on the same emitter and at the same slot. -/
structure SamePattern (p q : Player) : Prop where
  program : q.program = p.program
  emitter : q.emitter = p.emitter
  slot : q.slot = p.slot

theorem SamePattern.refl (p : Player) : SamePattern p p := ⟨rfl, rfl, rfl⟩

theorem SamePattern.trans {p q r : Player} (h : SamePattern p q) (h' : SamePattern q r) : SamePattern p r :=
  ⟨h'.program.trans h.program, h'.emitter.trans h.emitter, h'.slot.trans h.slot⟩

theorem Executed.pattern_turn {t u : Turn} {i : Instruction} {flow : Flow} (h : Executed t i flow u) :
    SamePattern t.player (u.follow flow).turn.player := by
  cases h with
  | plain _ same => exact ⟨same.program, same.emitter, same.slot⟩
  | suspend _ same => exact ⟨same.program, same.emitter, same.slot⟩
  | pass _ same => exact ⟨same.program, same.emitter, same.slot⟩
  | enter _ same => exact ⟨same.program, same.emitter, same.slot⟩
  | stray _ _ same => exact ⟨same.program, same.emitter, same.slot⟩
  | die _ same => exact ⟨same.program, same.emitter, same.slot⟩
  | stop _ stopped =>
      rw [follow, Round.turn, stopped]
      exact ⟨rfl, rfl, rfl⟩
  | reboot _ rebooted =>
      rw [follow, Round.turn, rebooted]
      exact ⟨rfl, rfl, rfl⟩
  | _ => exact ⟨rfl, rfl, rfl⟩

theorem Executed.pointer {t u : Turn} {i : Instruction} {flow : Flow} (h : Executed t i flow u) :
    u.player.pointer = t.player.pointer ∨ flow = .halt := by
  cases h with
  | plain _ same => exact Or.inl same.pointer
  | suspend _ same => exact Or.inl same.pointer
  | pass _ same => exact Or.inl same.pointer
  | enter _ same => exact Or.inl same.pointer
  | stray _ _ same => exact Or.inl same.pointer
  | die _ same => exact Or.inl same.pointer
  | stop => exact Or.inr rfl
  | reboot => exact Or.inr rfl
  | _ => exact Or.inl rfl

/-- What a round can do. -/
inductive Rounded (t : Turn) : Round → Prop where
  | done (past : t.player.program.instructions[t.player.pointer]? = none) (closed : t.player.frames = []) :
      Rounded t (.last (t.setStatus .done))
  | repaired {frame : Frame} {frames : List Frame}
      (past : t.player.program.instructions[t.player.pointer]? = none)
      (opened : t.player.frames = frame :: frames) : Rounded t (.more (t.repair frames))
  | disabled {i : Instruction} (here : t.player.program.instructions[t.player.pointer]? = some i)
      (disabled : i.enabled = false) : Rounded t (.more t.advance)
  | executed {i : Instruction} {flow : Flow} {u : Turn}
      (here : t.player.program.instructions[t.player.pointer]? = some i) (enabled : i.enabled = true)
      (executed : Executed t.count i flow u) : Rounded t (u.follow flow)

theorem rounded_round (globals : Blackboard) (t : Turn) : Rounded t (t.round globals) := by
  cases here : t.player.program.instructions[t.player.pointer]? with
  | none =>
      cases hf : t.player.frames with
      | nil =>
          rw [round_of_done here hf]
          exact .done here hf
      | cons frame frames =>
          rw [round_of_unterminated here hf]
          exact .repaired here hf
  | some i =>
      cases he : i.enabled with
      | true =>
          rw [round_of_enabled here he]
          exact .executed here he (executed_execute t.count globals i)
      | false =>
          rw [round_of_disabled here he]
          exact .disabled here he

theorem Rounded.pattern_turn {t : Turn} {r : Round} (h : Rounded t r) :
    SamePattern t.player r.turn.player := by
  cases h with
  | executed _ _ h => exact h.pattern_turn
  | _ => exact ⟨rfl, rfl, rfl⟩

end Turn

/-- A call from outside: an update in some surroundings, or a command to play, pause, stop or reboot. -/
inductive Call where
  | update (dt : Single) (globals : Blackboard) (swarm : Swarm)
  | command (command : Command)

namespace Player

/-- An update at its beginning, when the time has been counted. -/
def begin (p : Player) (dt : Single) (swarm : Swarm) : Turn :=
  { player := { p with time := p.time + dt, wait := p.wait - dt }, swarm }

/-- Whether an update of such a time runs instructions. -/
def Runs (p : Player) (dt : Single) : Prop := p.status = .playing ∧ p.wait - dt ≤ 0

instance (p : Player) (dt : Single) : Decidable (p.Runs dt) := inferInstanceAs (Decidable (_ ∧ _))

theorem update_of_runs {p : Player} {dt : Single} (h : p.Runs dt) (globals : Blackboard) (swarm : Swarm) :
    p.update dt globals swarm = (p.begin dt swarm).run globals := by
  rw [update, if_pos h.1]
  exact if_pos h.2

/-- An update that runs no instruction counts the time at most. -/
theorem update_of_not_runs {p : Player} {dt : Single} (h : ¬p.Runs dt) (globals : Blackboard)
    (swarm : Swarm) :
    p.update dt globals swarm = if p.status = .playing then p.begin dt swarm else { player := p, swarm } := by
  unfold update
  split
  · rename_i hs
    exact if_neg fun hw => h ⟨hs, hw⟩
  · rfl

def call (p : Player) : Call → Player
  | .update dt globals swarm => (p.update dt globals swarm).player
  | .command command => p.command command

/-- A player after calls, in order. -/
def after (p : Player) (calls : List Call) : Player := calls.foldl call p

theorem after_induction {P : Player → Prop} (call : ∀ p c, P p → P (p.call c)) {p : Player} (h : P p)
    (calls : List Call) : P (p.after calls) := by
  induction calls generalizing p with
  | nil => exact h
  | cons c calls ih => exact ih (call p c h)

/-- What holds of a player whatever time it counts, and over every round, holds over every update. -/
theorem update_invariant {P : Player → Prop} (time : ∀ p time wait, P p → P { p with time, wait })
    (round : ∀ globals (t : Turn), P t.player → P (t.round globals).turn.player) {p : Player} (h : P p)
    (dt : Single) (globals : Blackboard) (swarm : Swarm) : P (p.update dt globals swarm).player := by
  have hb : P (p.begin dt swarm).player := time p _ _ h
  by_cases hr : p.Runs dt
  · rw [update_of_runs hr]
    exact Turn.run_invariant (P := fun t => P t.player) (round globals) _ hb
  · rw [update_of_not_runs hr]
    split
    · exact hb
    · exact h

theorem program_command (p : Player) (command : Command) : (p.command command).program = p.program := by
  cases command with
  | play =>
      simp only [Player.command, play]
      split <;> rfl
  | pause =>
      simp only [Player.command, pause]
      split <;> rfl
  | stop => rfl
  | reboot => rfl

theorem program_after (p : Player) (calls : List Call) : (p.after calls).program = p.program := by
  refine after_induction (P := fun q => q.program = p.program) (fun q c h => ?_) rfl calls
  cases c with
  | update dt globals swarm =>
      exact update_invariant (P := fun q => q.program = p.program) (fun _ _ _ h => h)
        (fun globals t h => (Turn.rounded_round globals t).pattern_turn.program.trans h) h dt globals swarm
  | command command => exact (program_command q command).trans h

end Player

end Danmaku
