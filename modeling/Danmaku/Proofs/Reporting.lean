import Danmaku.Proofs.Rounds

/-! What an update tells besides its course: the events in order, and the report. An instruction adds events to those
before it and shots to the report. It looks at neither, so what it adds does not depend on what was told before. -/

namespace Danmaku

/-- The report after more shots. -/
def Report.fired (r : Report) (n : UInt32) : Report := { r with shots := r.shots + n }

theorem Report.fired_zero (r : Report) : r.fired 0 = r := by
  rw [fired, UInt32.add_zero]

namespace Turn

/-- The same turn, with another past to tell. -/
def retold (t : Turn) (events : Array Event) (report : Report) : Turn := { t with events, report }

variable {t : Turn} {globals : Blackboard} {α β : Type}

/-- The effects of an update so far, in order. -/
def effects (t : Turn) : List Effect := t.events.toList.filterMap Event.effect?

@[simp] theorem effects_note (t : Turn) (n : Notice) : (t.note n).effects = t.effects := by
  simp [effects, note, List.filterMap_append, Event.effect?]

@[simp] theorem effects_drawing (t : Turn) (m : StateM Ledger α) : (t.drawing m).2.effects = t.effects := by
  simp [effects, drawing, List.filterMap_append, Event.effect?]

@[simp] theorem effects_value [Blendable α] (t : Turn) (globals : Blackboard) (p : Param α) (channel : Channel) :
    (t.value globals p channel).2.effects = t.effects :=
  effects_drawing t _

theorem emit_retold (t : Turn) (events : Array Event) (report : Report) (e : Effect) :
    (t.retold events report).emit e = (t.emit e).retold (events ++ #[.effect e]) report := rfl

theorem drawing_retold (t : Turn) (m : StateM Ledger α) : ∃ new, ∀ events report,
    (t.retold events report).drawing m = ((t.drawing m).1, (t.drawing m).2.retold (events ++ new) report) :=
  ⟨(m { cache := t.player.cache, stage := { swarm := t.swarm } }).2.stage.notices.map .notice, fun _ _ => rfl⟩

theorem value_retold [Blendable α] (t : Turn) (globals : Blackboard) (p : Param α) (channel : Channel) :
    ∃ new, ∀ events report, (t.retold events report).value globals p channel =
      ((t.value globals p channel).1, (t.value globals p channel).2.retold (events ++ new) report) :=
  drawing_retold t (Ledger.draw (t.player.pointer, channel) p t.player.frames (t.view globals) .pattern)

theorem mutation_retold (t : Turn) (globals : Blackboard) (e : Edit Param) : ∃ new, ∀ events report,
    (t.retold events report).mutation globals e =
      ((t.mutation globals e).1, (t.mutation globals e).2.retold (events ++ new) report) :=
  drawing_retold t (e.resolve fun p =>
    Ledger.draw (t.player.pointer, .main) p t.player.frames (t.view globals) .pattern)

theorem edit_retold (t : Turn) (globals : Blackboard) (e : Edit Param) (timing : Timing) : ∃ new,
    ∀ events report, (t.retold events report).edit globals e timing =
      (t.edit globals e timing).retold (events ++ new) report := by
  obtain ⟨drawn, mutation⟩ := mutation_retold t globals e
  have apply : ∃ new, ∀ events report, ((t.retold events report).mutation globals e).2.emit
      (.apply t.player.emitter ((t.retold events report).mutation globals e).1) =
        ((t.mutation globals e).2.emit (.apply t.player.emitter (t.mutation globals e).1)).retold
          (events ++ new) report :=
    ⟨drawn ++ #[.effect (.apply t.player.emitter (t.mutation globals e).1)],
      fun events report => by rw [mutation, emit_retold, Array.append_assoc]⟩
  cases timing with
  | instant => exact apply
  | progressive duration easing =>
      simp only [edit]
      by_cases gradual : (t.mutation globals e).1.isGradual
      · obtain ⟨lasting, value⟩ := value_retold (t.mutation globals e).2 globals duration .duration
        obtain ⟨easy, value'⟩ :=
          value_retold ((t.mutation globals e).2.value globals duration .duration).2 globals easing .easing
        let d := (t.mutation globals e).2.value globals duration .duration
        let e' := d.2.value globals easing .easing
        refine ⟨drawn ++ (lasting ++ (easy ++
          #[.effect (.schedule t.player.emitter (t.mutation globals e).1 (d.1.raisedTo 0) e'.1)])),
          fun events report => ?_⟩
        simp only [mutation, gradual, if_true, value, value', emit_retold, Array.append_assoc]
        rfl
      · obtain ⟨new, applied⟩ := apply
        refine ⟨new, fun events report => ?_⟩
        rw [if_neg gradual, ← applied, mutation, if_neg gradual]
        rfl

theorem addCustom_retold (t : Turn) (name : String) (delta : Single) : ∃ new, ∀ events report,
    (t.retold events report).addCustom name delta = (t.addCustom name delta).retold (events ++ new) report := by
  have same (events : Array Event) (report : Report) :
      (t.retold events report).swarm.find? (t.retold events report).player.emitter =
        t.swarm.find? t.player.emitter := rfl
  unfold addCustom
  simp only [same]
  cases t.swarm.find? t.player.emitter with
  | none => exact ⟨#[], fun _ _ => by rw [Array.append_empty]⟩
  | some p =>
      dsimp only
      cases p.custom.add? name delta with
      | some result =>
          refine ⟨#[], fun _ _ => ?_⟩
          rw [Array.append_empty]
          rfl
      | none => exact ⟨#[.notice (.notANumber name)], fun _ _ => rfl⟩

/-- The step adds events and shots, whatever was told before. -/
def Adds (step : Turn → β × Turn) (t : Turn) : Prop :=
  ∃ new n, ∀ events report, step (t.retold events report) =
    ((step t).1, (step t).2.retold (events ++ new) (report.fired n))

/-- A step that only adds events. -/
theorem Adds.of_events {step : Turn → β × Turn} (h : ∃ new, ∀ events report, step (t.retold events report) =
    ((step t).1, (step t).2.retold (events ++ new) report)) : Adds step t := by
  obtain ⟨new, same⟩ := h
  exact ⟨new, 0, fun events report => by rw [Report.fired_zero, same]⟩

/-- A step that tells nothing. -/
theorem Adds.of_silent {step : Turn → β × Turn}
    (h : ∀ events report, step (t.retold events report) = ((step t).1, (step t).2.retold events report)) :
    Adds step t :=
  .of_events ⟨#[], fun events report => by rw [Array.append_empty, h]⟩

theorem adds_shoot (t : Turn) (globals : Blackboard) (shot : Shot) :
    Adds (fun t => (Flow.next, t.shoot globals shot)) t := by
  let drawn := shot.draw (t.view globals) { swarm := t.swarm }
  let muzzle : Muzzle := {
    emitter := t.player.emitter, pattern := t.player.program.id, slot := t.player.slot
    shotIndex := t.player.shots, shotTime := t.player.time }
  refine ⟨drawn.2.notices.map .notice ++ #[.effect (.shoot drawn.1 muzzle)], 1, fun events report => ?_⟩
  rw [← Array.append_assoc]
  rfl

theorem adds_act (t : Turn) (globals : Blackboard) (action : Action) (timing : Timing) :
    Adds (fun t => (Flow.next, t.act globals action timing)) t := by
  have emitting {α : Type} [Blendable α] (p : Param α) (effect : α → Effect) :
      ∃ new, ∀ events report, (Flow.next, ((t.retold events report).value globals p .main).2.emit
          (effect ((t.retold events report).value globals p .main).1)) =
        (Flow.next, ((t.value globals p .main).2.emit (effect (t.value globals p .main).1)).retold
          (events ++ new) report) := by
    obtain ⟨new, value⟩ := value_retold t globals p .main
    refine ⟨new ++ #[.effect (effect (t.value globals p .main).1)], fun events report => ?_⟩
    rw [value, emit_retold, Array.append_assoc]
  cases action with
  | shoot shot => exact adds_shoot t globals shot
  | playAudio cue => exact .of_events (emitting cue .playAudio)
  | playVfx vfx => exact .of_events (emitting vfx (.playVfx t.player.emitter))
  | stopVfx vfx => exact .of_events (emitting vfx (.stopVfx t.player.emitter))
  | edit e =>
      obtain ⟨new, same⟩ := edit_retold t globals e timing
      exact .of_events ⟨new, fun events report => congrArg (Flow.next, ·) (same events report)⟩
  | setCustom name p =>
      obtain ⟨new, value⟩ := value_retold t globals p .main
      refine .of_events ⟨new, fun events report => ?_⟩
      simp only [act, value]
      rfl
  | addCustom name p =>
      obtain ⟨drawn, value⟩ := value_retold t globals p .main
      obtain ⟨new, same⟩ := addCustom_retold (t.value globals p .main).2 name (t.value globals p .main).1
      refine .of_events ⟨drawn ++ new, fun events report => ?_⟩
      simp only [act, value, same, Array.append_assoc]
  | toggle module on => exact .of_events ⟨#[.effect (.toggle t.player.emitter module on)], fun _ _ => rfl⟩
  | command command recipient =>
      exact .of_events ⟨#[.effect (.control t.player.emitter recipient command)], fun _ _ => rfl⟩
  | _ => exact .of_silent fun _ _ => rfl

theorem adds_wait (t : Turn) (globals : Blackboard) (seconds : Param Single) :
    Adds (·.wait globals seconds) t := by
  obtain ⟨new, value⟩ := value_retold t globals seconds .main
  refine .of_events ⟨new, fun events report => ?_⟩
  simp only [wait, value]
  split <;> rfl

theorem adds_beginLoop (t : Turn) (globals : Blackboard) (iterations : Param Int32) (endless : Bool) :
    Adds (·.beginLoop globals iterations endless) t := by
  obtain ⟨new, value⟩ := value_retold t globals iterations .main
  refine .of_events ⟨new, fun events report => ?_⟩
  simp only [beginLoop, value]
  split <;> rfl

theorem adds_endLoop (t : Turn) : Adds (·.endLoop) t := by
  have same (events : Array Event) (report : Report) : (t.retold events report).player.frames = t.player.frames := rfl
  cases opened : t.player.frames with
  | nil =>
      refine .of_events ⟨#[.notice (.strayLoopEnd t.player.program.id)], fun events report => ?_⟩
      simp only [endLoop, same, opened]
      rfl
  | cons frame frames =>
      refine .of_silent fun events report => ?_
      simp only [endLoop, same, opened]
      split
      · rfl
      · split <;> rfl

theorem adds_commandSelf (t : Turn) (command : Command) : Adds (·.commandSelf command) t := by
  cases command with
  | reboot => exact .of_events ⟨#[.notice (.rebooted t.player.program.id t.player.emitter)], fun _ _ => rfl⟩
  | _ => exact .of_silent fun _ _ => rfl

/-- An instruction adds events and shots, whatever was told before. -/
theorem adds_execute (t : Turn) (globals : Blackboard) (i : Instruction) : Adds (·.execute globals i) t := by
  have act := adds_act t globals i.action i.timing
  simp only [execute_eq_perform]
  unfold perform
  split
  · exact adds_wait t globals _
  · exact adds_beginLoop t globals _ _
  · exact adds_endLoop t
  · exact .of_events ⟨#[.effect (.kill t.player.emitter)], fun _ _ => rfl⟩
  · exact adds_commandSelf t _
  · exact act

/-- Of a report, an instruction changes nothing but the number of shots. -/
theorem report_execute (t : Turn) (globals : Blackboard) (i : Instruction) :
    ∃ n, (t.execute globals i).2.report = t.report.fired n := by
  obtain ⟨new, n, same⟩ := adds_execute t globals i
  exact ⟨n, congrArg (·.2.report) (same t.events t.report)⟩

end Turn

end Danmaku
