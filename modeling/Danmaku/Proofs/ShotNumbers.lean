import Danmaku.Proofs.Ending
import Danmaku.Proofs.History
import Mathlib.Algebra.Group.Nat.Defs

/-! The numbers of shots. A player numbers its shots from zero, and starts again where it is reset; the report of an
update counts the shots of that update, whether it resets the player or not. The beats of a player are its shots and
resets, newest first. They are read off the events that an update adds and the resets that it comes by, so they say
what the host sees. Counters are words of 32 bits, so what is said of numbers holds of fewer than `2 ^ 32` shots. -/

namespace Danmaku

/-- The muzzle of a shot that is fired. -/
def Event.muzzle? : Event → Option Muzzle
  | effect (.shoot _ muzzle) => some muzzle
  | _ => none

inductive Beat where
  | fired (muzzle : Muzzle)
  /-- The player goes back to its start. -/
  | reset

namespace Beat

def muzzle? : Beat → Option Muzzle
  | fired muzzle => some muzzle
  | reset => none

/-- The shots, newest first. -/
def shots (beats : List Beat) : List Muzzle := beats.filterMap muzzle?

/-- The number of shots since the last reset. -/
def sinceReset : List Beat → Nat
  | [] => 0
  | reset :: _ => 0
  | fired _ :: past => sinceReset past + 1

/-- Every shot has the number of shots that were fired since the reset before it. -/
def Numbered : List Beat → Prop
  | [] => True
  | reset :: past => Numbered past
  | fired muzzle :: past => muzzle.shotIndex = .ofNat (sinceReset past) ∧ Numbered past

variable {beats newer older : List Beat}

theorem sinceReset_le (beats : List Beat) : sinceReset beats ≤ (shots beats).length := by
  induction beats with
  | nil => exact Nat.le_refl 0
  | cons b past ih =>
      cases b with
      | fired muzzle => exact Nat.succ_le_succ ih
      | reset => exact Nat.zero_le _

theorem sinceReset_of_fresh (fresh : older = [] ∨ older.head? = some reset) : sinceReset older = 0 := by
  rcases fresh with rfl | fresh
  · rfl
  · obtain ⟨past, rfl⟩ := List.head?_eq_some_iff.1 fresh
    rfl

theorem shots_append (newer older : List Beat) : shots (newer ++ older) = shots newer ++ shots older :=
  List.filterMap_append

theorem shots_map_fired (muzzles : List Muzzle) : shots (muzzles.map fired) = muzzles := by
  simp [shots, muzzle?, List.filterMap_map, Function.comp_def]

theorem length_le_shots (newer older : List Beat) (muzzles : List Muzzle) :
    muzzles.length ≤ (shots (newer ++ (muzzles.map fired ++ older))).length := by
  rw [shots_append, shots_append, shots_map_fired, List.length_append, List.length_append]
  omega

theorem Numbered.of_append (h : Numbered (newer ++ older)) : Numbered older := by
  induction newer with
  | nil => exact h
  | cons b newer ih =>
      cases b with
      | fired muzzle => exact ih h.2
      | reset => exact ih h

theorem sinceReset_append (fresh : sinceReset older = 0) (muzzles : List Muzzle) :
    sinceReset (muzzles.map fired ++ older) = muzzles.length := by
  induction muzzles with
  | nil => exact fresh
  | cons muzzle muzzles ih => exact congrArg (· + 1) ih

/-- The shots after a reset are numbered in order. -/
theorem Numbered.stretch (fresh : sinceReset older = 0) {muzzles : List Muzzle}
    (h : Numbered (muzzles.map fired ++ older)) :
    muzzles.reverse.map (·.shotIndex) = (List.range muzzles.length).map UInt32.ofNat := by
  induction muzzles with
  | nil => rfl
  | cons muzzle muzzles ih =>
      obtain ⟨number, earlier⟩ := h
      have number : muzzle.shotIndex = .ofNat muzzles.length :=
        number.trans (congrArg UInt32.ofNat (sinceReset_append fresh muzzles))
      rw [List.reverse_cons, List.map_append, ih earlier, List.length_cons, List.range_succ, List.map_append]
      simp [number]

end Beat

namespace Turn

variable {t u v : Turn} {globals : Blackboard} {i : Instruction}

/-- The shots of the update so far, in order. -/
def muzzles (t : Turn) : List Muzzle := t.events.toList.filterMap Event.muzzle?

/-- No shot is fired or counted between the turns. -/
structure Quiet (t u : Turn) : Prop where
  muzzles : u.muzzles = t.muzzles
  shots : u.player.shots = t.player.shots
  reported : u.report.shots = t.report.shots

theorem Quiet.refl (t : Turn) : Quiet t t := ⟨rfl, rfl, rfl⟩

theorem Quiet.trans (h : Quiet t u) (h' : Quiet u v) : Quiet t v :=
  ⟨h'.muzzles.trans h.muzzles, h'.shots.trans h.shots, h'.reported.trans h.reported⟩

theorem muzzles_push (t : Turn) (e : Event) :
    ({ t with events := t.events.push e } : Turn).muzzles = t.muzzles ++ e.muzzle?.toList := by
  simp only [muzzles, Array.toList_push, List.filterMap_append]
  cases h : e.muzzle? <;> simp [h]

theorem quiet_emit (t : Turn) {e : Effect} (h : (Event.effect e).muzzle? = none) : Quiet t (t.emit e) := by
  refine ⟨?_, rfl, rfl⟩
  rw [emit, muzzles_push, h]
  exact List.append_nil _

theorem quiet_note (t : Turn) (n : Notice) : Quiet t (t.note n) :=
  ⟨(muzzles_push t (.notice n)).trans (List.append_nil _), rfl, rfl⟩

theorem quiet_drawing {α : Type} (t : Turn) (m : StateM Ledger α) : Quiet t (t.drawing m).2 := by
  refine ⟨?_, rfl, rfl⟩
  simp [muzzles, drawing, List.filterMap_append, Event.muzzle?]

theorem quiet_value {α : Type} [Blendable α] (t : Turn) (globals : Blackboard) (p : Param α) (channel : Channel) :
    Quiet t (t.value globals p channel).2 := quiet_drawing t _

theorem quiet_edit (t : Turn) (globals : Blackboard) (e : Edit Param) (timing : Timing) :
    Quiet t (t.edit globals e timing) := by
  have mutation : Quiet t (t.mutation globals e).2 := quiet_drawing t _
  cases timing with
  | instant => exact mutation.trans (quiet_emit _ rfl)
  | progressive duration easing =>
      simp only [edit]
      split
      · have duration := mutation.trans (quiet_value _ globals duration .duration)
        exact (duration.trans (quiet_value _ globals easing .easing)).trans (quiet_emit _ rfl)
      · exact mutation.trans (quiet_emit _ rfl)

theorem quiet_addCustom (t : Turn) (name : String) (delta : Single) : Quiet t (t.addCustom name delta) := by
  unfold addCustom
  split
  · exact .refl t
  · split
    · exact ⟨rfl, rfl, rfl⟩
    · exact quiet_note t _

theorem quiet_act (t : Turn) (globals : Blackboard) {action : Action} (timing : Timing)
    (h : ∀ shot, action ≠ .shoot shot) : Quiet t (t.act globals action timing) := by
  cases action with
  | shoot shot => exact absurd rfl (h shot)
  | playAudio cue => exact (quiet_value t globals cue .main).trans (quiet_emit _ rfl)
  | playVfx vfx => exact (quiet_value t globals vfx .main).trans (quiet_emit _ rfl)
  | stopVfx vfx => exact (quiet_value t globals vfx .main).trans (quiet_emit _ rfl)
  | edit e => exact quiet_edit t globals e timing
  | toggle module on => exact quiet_emit t rfl
  | setCustom name p => exact (quiet_value t globals p .main).trans ⟨rfl, rfl, rfl⟩
  | addCustom name p => exact (quiet_value t globals p .main).trans (quiet_addCustom _ name _)
  | command command recipient => exact quiet_emit t rfl
  | _ => exact .refl t

theorem quiet_wait (t : Turn) (globals : Blackboard) (seconds : Param Single) :
    Quiet t (t.wait globals seconds).2 := by
  unfold wait
  dsimp only
  split <;> exact (quiet_value t globals seconds .main).trans ⟨rfl, rfl, rfl⟩

theorem quiet_beginLoop (t : Turn) (globals : Blackboard) (iterations : Param Int32) (endless : Bool) :
    Quiet t (t.beginLoop globals iterations endless).2 := by
  unfold beginLoop
  dsimp only
  split <;> exact (quiet_value t globals iterations .main).trans ⟨rfl, rfl, rfl⟩

theorem quiet_endLoop (t : Turn) : Quiet t t.endLoop.2 := by
  unfold endLoop
  split
  · exact quiet_note t _
  · split
    · exact ⟨rfl, rfl, rfl⟩
    · split <;> exact ⟨rfl, rfl, rfl⟩

theorem quiet_follow (u : Turn) (flow : Flow) : Quiet u (u.follow flow).turn := by
  cases flow <;> exact ⟨rfl, rfl, rfl⟩

theorem quiet_execute (t : Turn) (globals : Blackboard) (i : Instruction)
    (shoot : ∀ shot, i.action ≠ .shoot shot) (reset : i.action.isReset = false) :
    Quiet t (t.execute globals i).2 := by
  rw [execute_eq_perform]
  unfold perform
  split
  · exact quiet_wait t globals _
  · exact quiet_beginLoop t globals _ _
  · exact quiet_endLoop t
  · exact quiet_emit t rfl
  · rename_i command action
    rw [action] at reset
    cases command with
    | play => exact .refl t
    | pause => exact ⟨rfl, rfl, rfl⟩
    | stop => cases reset
    | reboot => cases reset
  · exact quiet_act t globals _ shoot

/-- The shots that an execution adds to the events, in order. -/
def shotsOf (globals : Blackboard) (t : Turn) (i : Instruction) : List Muzzle :=
  (t.count.execute globals i).2.muzzles.drop t.muzzles.length

/-- The beats of an execution: the shots that its events add, or the reset. -/
def beats (globals : Blackboard) (t : Turn) (i : Instruction) : List Beat :=
  (if i.action.isReset then [.reset] else []) ++ (t.shotsOf globals i).reverse.map .fired

theorem beats_of_shotsOf {muzzles : List Muzzle} (on : i.action.isReset = false)
    (shots : t.shotsOf globals i = muzzles) : t.beats globals i = muzzles.reverse.map .fired := by
  rw [beats, on, shots, if_neg Bool.false_ne_true, List.nil_append]

theorem shotsOf_of_same (same : (t.count.execute globals i).2.muzzles = t.muzzles) : t.shotsOf globals i = [] := by
  rw [shotsOf, same, List.drop_length]

/-- What a round is to the numbers of shots, by its beats. -/
inductive Sounds (t : Turn) : List Beat → Turn → Prop where
  | quiet {u : Turn} (quiet : Quiet t u) : Sounds t [] u
  | fired {u : Turn} (muzzle : Muzzle) (muzzles : u.muzzles = t.muzzles ++ [muzzle])
      (number : muzzle.shotIndex = t.player.shots) (shots : u.player.shots = t.player.shots + 1)
      (reported : u.report.shots = t.report.shots + 1) : Sounds t [.fired muzzle] u
  | reset {u : Turn} (muzzles : u.muzzles = t.muzzles) (shots : u.player.shots = 0)
      (reported : u.report.shots = t.report.shots) : Sounds t [.reset] u

theorem Sounds.trans_quiet {beats : List Beat} (h : Sounds t beats u) (quiet : Quiet u v) : Sounds t beats v := by
  cases h with
  | quiet first => exact .quiet (first.trans quiet)
  | fired muzzle muzzles number shots reported =>
      exact .fired muzzle (quiet.muzzles.trans muzzles) number (quiet.shots.trans shots)
        (quiet.reported.trans reported)
  | reset muzzles shots reported =>
      exact .reset (quiet.muzzles.trans muzzles) (quiet.shots.trans shots) (quiet.reported.trans reported)

theorem muzzles_shoot (t : Turn) (globals : Blackboard) (shot : Shot) : ∃ muzzle : Muzzle,
    (t.shoot globals shot).muzzles = t.muzzles ++ [muzzle] ∧ muzzle.shotIndex = t.player.shots := by
  let v := t.drawing fun l =>
    ((shot.draw (t.view globals) l.stage).1, { l with stage := (shot.draw (t.view globals) l.stage).2 })
  let muzzle : Muzzle := {
    emitter := t.player.emitter, pattern := t.player.program.id, slot := t.player.slot
    shotIndex := t.player.shots, shotTime := t.player.time }
  have pushed := muzzles_push v.2 (.effect (.shoot v.1 muzzle))
  rw [(quiet_drawing t _).muzzles] at pushed
  exact ⟨muzzle, pushed, rfl⟩

/-- A shot has the number of shots before it, and is counted by the player and in the report. -/
theorem sounds_shoot {shot : Shot} (action : i.action = .shoot shot) (globals : Blackboard) (t : Turn) :
    Sounds t (t.beats globals i) (t.count.execute globals i).2 := by
  have on : i.action.isReset = false := by rw [action]; rfl
  have executes : t.count.execute globals i = (.next, t.count.shoot globals shot) := by
    simp only [execute_eq_perform, perform, action, act]
  obtain ⟨muzzle, muzzles, number⟩ := muzzles_shoot t.count globals shot
  have one : t.shotsOf globals i = [muzzle] := by
    rw [shotsOf, executes, muzzles]
    exact List.drop_left
  rw [beats_of_shotsOf on one, executes]
  exact .fired muzzle muzzles number rfl rfl

theorem sounds_reset (reset : i.action.isReset = true) (globals : Blackboard) (t : Turn) :
    Sounds t (t.beats globals i) (t.count.execute globals i).2 := by
  have silent {command : Command} (action : i.action = .command command .self)
      (resets : (t.count.commandSelf command).2.player.shots = 0) :
      Sounds t (t.beats globals i) (t.count.execute globals i).2 := by
    have executes : t.count.execute globals i = t.count.commandSelf command := by
      simp only [execute_eq_perform, perform, action]
    have quiet : (t.count.commandSelf command).2.muzzles = t.muzzles ∧
        (t.count.commandSelf command).2.report.shots = t.report.shots := by
      cases command with
      | reboot =>
          obtain ⟨muzzles, -, reported⟩ := quiet_note { t.count with player := t.count.player.reboot }
            (.rebooted t.count.player.program.id t.count.player.emitter)
          exact ⟨muzzles, reported⟩
      | _ => exact ⟨rfl, rfl⟩
    have none : t.shotsOf globals i = [] := shotsOf_of_same (by rw [executes, quiet.1])
    rw [beats, reset, none, executes]
    exact .reset quiet.1 resets quiet.2
  unfold Action.isReset at reset
  split at reset
  · exact silent ‹_› rfl
  · exact silent ‹_› rfl
  · cases reset

theorem sounds_execute (globals : Blackboard) (t : Turn) (i : Instruction) :
    Sounds t (t.beats globals i) (t.count.execute globals i).2 := by
  cases reset : i.action.isReset with
  | true => exact sounds_reset reset globals t
  | false =>
      by_cases shoots : ∃ shot, i.action = .shoot shot
      · obtain ⟨shot, action⟩ := shoots
        exact sounds_shoot action globals t
      · have quiet := quiet_execute t.count globals i (fun shot action => shoots ⟨shot, action⟩) reset
        rw [beats_of_shotsOf reset (shotsOf_of_same quiet.muzzles)]
        exact .quiet ⟨quiet.muzzles, quiet.shots, quiet.reported⟩

theorem sounds_round (globals : Blackboard) (t : Turn) :
    Sounds t (t.logs (beats globals)) (t.round globals).turn := by
  cases here : t.player.program.instructions[t.player.pointer]? with
  | none =>
      rw [logs_of_none (next?_of_past here)]
      cases opened : t.player.frames with
      | nil =>
          rw [round_of_done here opened]
          exact .quiet ⟨rfl, rfl, rfl⟩
      | cons frame frames =>
          rw [round_of_unterminated here opened]
          exact .quiet ((quiet_note t (.unterminatedLoop t.player.program.id)).trans ⟨rfl, rfl, rfl⟩)
  | some i =>
      cases enabled : i.enabled with
      | false =>
          rw [round_of_disabled here enabled, logs_of_none (next?_of_disabled here enabled)]
          exact .quiet ⟨rfl, rfl, rfl⟩
      | true =>
          rw [round_of_enabled here enabled, logs_of_next? (next?_of_enabled here enabled)]
          exact (sounds_execute globals t i).trans_quiet (quiet_follow _ _)

/-- The shots of the beats are those of the update so far, after others. -/
structure Tells (t : Turn) (before : List Muzzle) (past : List Beat) : Prop where
  shots : Beat.shots past = t.muzzles.reverse ++ before
  reported : t.report.shots = .ofNat t.muzzles.length

end Turn

/-- The player numbers its next shot by the shots since its last reset. -/
structure Player.Counts (p : Player) (past : List Beat) : Prop where
  numbered : Beat.Numbered past
  shots : p.shots = .ofNat (Beat.sinceReset past)

namespace Turn

variable {t u : Turn} {globals : Blackboard} {past : List Beat} {before : List Muzzle}

theorem round_counts (h : t.player.Counts past) (tells : t.Tells before past) (globals : Blackboard) :
    (t.round globals).turn.player.Counts (t.logs (beats globals) ++ past) ∧
      (t.round globals).turn.Tells before (t.logs (beats globals) ++ past) := by
  have sounds := sounds_round globals t
  generalize (t.round globals).turn = u at sounds ⊢
  generalize t.logs (beats globals) = beats at sounds ⊢
  cases sounds with
  | quiet quiet =>
      refine ⟨⟨h.numbered, quiet.shots.trans h.shots⟩, ?_, ?_⟩
      · rw [quiet.muzzles, List.nil_append, tells.shots]
      · rw [quiet.muzzles, quiet.reported, tells.reported]
  | fired muzzle muzzles number shots reported =>
      refine ⟨⟨⟨number.trans h.shots, h.numbered⟩, ?_⟩, ?_, ?_⟩
      · rw [shots, h.shots, List.singleton_append, Beat.sinceReset, UInt32.ofNat_add]
        rfl
      · rw [muzzles, List.reverse_append, List.append_assoc, ← tells.shots]
        rfl
      · rw [muzzles, reported, tells.reported, List.length_append, UInt32.ofNat_add]
        rfl
  | reset muzzles shots reported =>
      refine ⟨⟨h.numbered, shots⟩, ?_, ?_⟩
      · rw [muzzles, ← tells.shots]
        rfl
      · rw [muzzles, reported, tells.reported]

theorem run_counts (h : t.player.Counts past) (tells : t.Tells before past) (globals : Blackboard) :
    (t.run globals).player.Counts (logged (beats globals) (t.executions globals) ++ past) ∧
      (t.run globals).Tells before (logged (beats globals) (t.executions globals) ++ past) :=
  log_invariant (P := fun past t => t.player.Counts past ∧ t.Tells before past)
    (fun _ _ h => round_counts h.1 h.2 globals) t ⟨h, tells⟩

end Turn

theorem Player.shots_command (p : Player) (command : Command) :
    (p.command command).shots = if p.isReset command then 0 else p.shots := by
  cases command with
  | play =>
      change p.play.shots = _
      unfold play
      split <;> rename_i status <;> simp [isReset, status, reboot, reset]
  | pause =>
      simp only [Player.command, pause, isReset]
      split <;> rfl
  | stop => rfl
  | reboot => rfl

/-- A player with the beats that came before. -/
structure Firing where
  player : Player
  beats : List Beat := []

namespace Firing

def ofProgram (program : Program) (emitter : ProjectileId) (slot : UInt32) : Firing :=
  { player := .ofProgram program emitter slot }

def call (f : Firing) (c : Call) : Firing where
  player := f.player.call c
  beats := f.player.logs Turn.beats .reset c ++ f.beats

def after (f : Firing) (calls : List Call) : Firing := calls.foldl call f

theorem player_after (f : Firing) (calls : List Call) : (f.after calls).player = f.player.after calls := by
  induction calls generalizing f with
  | nil => rfl
  | cons c calls ih => exact ih (f.call c)

variable {f : Firing}

theorem update_counts (h : f.player.Counts f.beats) (dt : Single) (globals : Blackboard) (swarm : Swarm) :
    (f.player.update dt globals swarm).player.Counts (f.call (.update dt globals swarm)).beats ∧
      (f.player.update dt globals swarm).Tells (Beat.shots f.beats) (f.call (.update dt globals swarm)).beats := by
  have begun : (f.player.begin dt swarm).player.Counts f.beats := ⟨h.numbered, h.shots⟩
  simp only [call, Player.logs, Player.executions]
  by_cases runs : f.player.Runs dt
  · rw [if_pos runs, Player.update_of_runs runs]
    exact Turn.run_counts begun ⟨rfl, rfl⟩ globals
  · rw [if_neg runs, Player.update_of_not_runs runs]
    split
    · exact ⟨begun, rfl, rfl⟩
    · exact ⟨h, rfl, rfl⟩

theorem command_counts (h : f.player.Counts f.beats) (command : Command) :
    (f.player.command command).Counts (f.call (.command command)).beats := by
  have shots := f.player.shots_command command
  cases reset : f.player.isReset command with
  | true =>
      simp only [call, Player.logs, reset, if_true]
      rw [reset, if_pos rfl] at shots
      exact ⟨h.numbered, shots⟩
  | false =>
      simp only [call, Player.logs, reset, Bool.false_eq_true, if_false]
      rw [reset, if_neg Bool.false_ne_true] at shots
      exact ⟨h.numbered, shots.trans h.shots⟩

theorem call_counts (h : f.player.Counts f.beats) (c : Call) : (f.call c).player.Counts (f.call c).beats := by
  cases c with
  | update dt globals swarm => exact (update_counts h dt globals swarm).1
  | command command => exact command_counts h command

theorem after_counts (h : f.player.Counts f.beats) (calls : List Call) :
    (f.after calls).player.Counts (f.after calls).beats := by
  induction calls generalizing f with
  | nil => exact h
  | cons c calls ih => exact ih (call_counts h c)

theorem counts_ofProgram (program : Program) (emitter : ProjectileId) (slot : UInt32) :
    (ofProgram program emitter slot).player.Counts (ofProgram program emitter slot).beats := ⟨trivial, rfl⟩

/-- Calls add shots to those that were fired before. -/
theorem shots_suffix_after (h : f.player.Counts f.beats) (calls : List Call) :
    Beat.shots f.beats <:+ Beat.shots (f.after calls).beats := by
  induction calls generalizing f with
  | nil => exact List.suffix_refl _
  | cons c calls ih =>
      refine List.IsSuffix.trans ?_ (ih (call_counts h c))
      cases c with
      | update dt globals swarm =>
          rw [(update_counts h dt globals swarm).2.shots]
          exact List.suffix_append _ _
      | command command =>
          simp only [call, Player.logs]
          split <;> exact List.suffix_refl _

/-- The numbers of shots, over every life of a player in which fewer than `2 ^ 32` are fired. The shots between two
resets, and those after the last one, are numbered from zero in the order in which they were fired. The player
shows how many it has fired since its last reset. Every update on the way reports how many it has fired, also where
it resets the player, and these shots are what it adds to the beats. -/
theorem shots_numbered (program : Program) (emitter : ProjectileId) (slot : UInt32) (calls : List Call)
    (few : (Beat.shots ((ofProgram program emitter slot).after calls).beats).length < 2 ^ 32) :
    let start := ofProgram program emitter slot
    let f := start.after calls
    f.player = (Player.ofProgram program emitter slot).after calls ∧
    (∀ (newer older : List Beat) (muzzles : List Muzzle), f.beats = newer ++ (muzzles.map .fired ++ older) →
      (older = [] ∨ older.head? = some .reset) →
      muzzles.reverse.map (·.shotIndex.toNat) = List.range muzzles.length) ∧
    f.player.shots.toNat = Beat.sinceReset f.beats ∧
    ∀ (earlier later : List Call) (dt : Single) (globals : Blackboard) (swarm : Swarm),
      calls = earlier ++ .update dt globals swarm :: later →
      let g := start.after earlier
      let u := g.player.update dt globals swarm
      u.report.shots.toNat = u.muzzles.length ∧
      Beat.shots (g.call (.update dt globals swarm)).beats = u.muzzles.reverse ++ Beat.shots g.beats := by
  intro start f
  have counts : f.player.Counts f.beats := after_counts (counts_ofProgram program emitter slot) calls
  have toNat_ofNat {n : Nat} (h : n ≤ (Beat.shots f.beats).length) : (UInt32.ofNat n).toNat = n :=
    UInt32.toNat_ofNat_of_lt' (Nat.lt_of_le_of_lt h few)
  refine ⟨player_after start calls, ?_, ?_, ?_⟩
  · intro newer older muzzles split fresh
    have numbered : Beat.Numbered (muzzles.map .fired ++ older) := by
      have all := counts.numbered
      rw [split] at all
      exact all.of_append
    have within : muzzles.length ≤ (Beat.shots f.beats).length := by
      rw [split]
      exact Beat.length_le_shots newer older muzzles
    calc muzzles.reverse.map (·.shotIndex.toNat)
        = (muzzles.reverse.map (·.shotIndex)).map UInt32.toNat := by rw [List.map_map]; rfl
      _ = ((List.range muzzles.length).map UInt32.ofNat).map UInt32.toNat := by
          rw [numbered.stretch (Beat.sinceReset_of_fresh fresh)]
      _ = List.range muzzles.length := by
          rw [List.map_map]
          refine (List.map_congr_left fun n hn => ?_).trans (List.map_id _)
          exact toNat_ofNat (Nat.le_trans (Nat.le_of_lt (List.mem_range.1 hn)) within)
  · rw [counts.shots]
    exact toNat_ofNat (Beat.sinceReset_le f.beats)
  · intro earlier later dt globals swarm split g u
    have earlier_counts : g.player.Counts g.beats := after_counts (counts_ofProgram program emitter slot) earlier
    obtain ⟨updated, told⟩ := update_counts earlier_counts dt globals swarm
    refine ⟨?_, told.shots⟩
    rw [told.reported]
    -- The shots of this update are among those of the whole life, so their number is no larger.
    refine toNat_ofNat ?_
    have suffix := shots_suffix_after (f := g.call (.update dt globals swarm)) updated later
    have reached : (g.call (.update dt globals swarm)).after later = f := by
      simp only [f, g, split, after, List.foldl_append, List.foldl_cons]
    rw [reached, told.shots] at suffix
    have length := suffix.length_le
    rw [List.length_append, List.length_reverse] at length
    omega

/-- Two shots and a reboot: every update fires both and resets the player. -/
def rebooting : Program where
  id := 1
  instructions := [.shoot (.ofCount 5 3 ⟨7⟩), .shoot (.ofCount 6 1 ⟨7⟩), { kind := .rebootPattern .self }]

/-- Two updates fire four shots. Each reports the two that it has fired, and the player shows none. -/
theorem rebooting_shots_numbered :
    let update : Call := .update 1 {} (.ofSeed 0)
    let start := ofProgram rebooting ⟨1⟩ 0
    let f := start.after [update, update]
    (Beat.shots f.beats).length < 2 ^ 32 ∧ (Beat.shots f.beats).map (·.shotIndex) = [1, 0, 1, 0] ∧
      f.player.shots = 0 ∧ f.player.shots.toNat = Beat.sinceReset f.beats ∧
      ((start.after [update]).player.update 1 {} (.ofSeed 0)).report.shots.toNat = 2 := by
  intro update start f
  -- Each update ends with its third round, on the reboot.
  have shown : (((start.player.begin 1 (.ofSeed 0)).lastAt? {} 2).bind fun u =>
      ((u.player.begin 1 (.ofSeed 0)).lastAt? {} 2).map fun v => (decide (u.player.Runs 1),
        u.muzzles.map (·.shotIndex), v.muzzles.map (·.shotIndex), v.player.shots)) =
      some (true, [0, 1], [0, 1], 0) := by
    decide +kernel
  obtain ⟨u, hu, shown⟩ := Option.bind_eq_some_iff.1 shown
  obtain ⟨v, hv, shown⟩ := Option.map_eq_some_iff.1 shown
  obtain ⟨runs, first, second, cleared⟩ : u.player.Runs 1 ∧ _ ∧ _ ∧ _ := by simpa using shown
  have first_eq : start.player.update 1 {} (.ofSeed 0) = u :=
    (Player.update_of_runs (p := start.player) (by decide +kernel) _ _).trans (Turn.run_eq_of_lastAt? hu)
  have second_eq : (start.call update).player.update 1 {} (.ofSeed 0) = v := by
    change (start.player.update 1 {} (.ofSeed 0)).player.update 1 {} (.ofSeed 0) = v
    rw [first_eq, Player.update_of_runs runs, Turn.run_eq_of_lastAt? hv]
  have counts := counts_ofProgram rebooting ⟨1⟩ 0
  have shots : Beat.shots f.beats = v.muzzles.reverse ++ (u.muzzles.reverse ++ []) := by
    have told := (update_counts (call_counts counts update) 1 {} (.ofSeed 0)).2.shots
    rw [(update_counts counts 1 {} (.ofSeed 0)).2.shots] at told
    rw [← first_eq, ← second_eq]
    exact told
  have numbers : (Beat.shots f.beats).map (·.shotIndex) = [1, 0, 1, 0] := by
    rw [shots, List.append_nil, List.map_append, List.map_reverse, List.map_reverse, first, second]
    rfl
  have few : (Beat.shots f.beats).length < 2 ^ 32 := by
    rw [← List.length_map, numbers]
    decide
  obtain ⟨-, -, shown, reported⟩ := shots_numbered rebooting ⟨1⟩ 0 [update, update] few
  refine ⟨few, numbers, ?_, shown, ?_⟩
  · change ((start.call update).player.update 1 {} (.ofSeed 0)).player.shots = 0
    rw [second_eq, cleared]
  · refine (reported [update] [] 1 {} (.ofSeed 0) rfl).1.trans ?_
    change ((start.call update).player.update 1 {} (.ofSeed 0)).muzzles.length = 2
    rw [second_eq, ← List.length_map, second]
    rfl

end Firing

end Danmaku
