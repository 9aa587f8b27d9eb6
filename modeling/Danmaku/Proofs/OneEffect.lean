import Danmaku.Proofs.FiredShots
import Danmaku.Proofs.History
import Danmaku.Proofs.SingleArithmetic

/-! What instructions ask of the host. The kinds of instructions are told apart by four partial readings: the cases of
`Turn.execute` and what a kind gives as a command, as a module to switch and as an edit. Each kind is read by exactly one
of them, so none is left without a way to take effect. An instruction that is executed asks for one effect or for none,
and its kind alone decides which. So the effects of an update are, one by one and in order, those of the executed
instructions that ask for any. -/

namespace Danmaku

namespace Kind

end Kind

/-- Waits, loops and the numbers of the emitter are no matter of the host, and neither is a command of a pattern to
itself. -/
def Action.asksHost : Action → Bool
  | wait _ | beginLoop .. | endLoop | setCustom .. | addCustom .. | command _ .self => false
  | shoot _ | playAudio _ | playVfx _ | stopVfx _ | die | edit _ | toggle .. | command .. => true

/-- An edit without its values. -/
def Edit.shape {f : Type → Type} : Edit f → Edit fun _ => Unit
  | point what _ => .point what ()
  | number what _ => .number what ()
  | color what _ => .color what ()
  | curveNumber what target _ => .curveNumber what target ()
  | setCurve target _ => .setCurve target ()
  | setFold target fold => .setFold target fold
  | playback target action => .playback target action
  | retarget preference => .retarget preference
  | tags list op _ => .tags list op ()

namespace Turn

variable {globals : Blackboard} {t u : Turn} {i : Instruction}

/-- The effects that an instruction can ask for at a turn. An edit is spread over time if the instruction says so and
the edit allows it, and is applied at once otherwise. -/
inductive Asks (globals : Blackboard) (t : Turn) (i : Instruction) : Effect → Prop where
  | shoot {shot : Shot} (action : i.action = .shoot shot) : Asks globals t i (.shoot (t.volley globals shot) t.muzzle)
  | playAudio {cue : Param AssetId} (action : i.action = .playAudio cue) :
      Asks globals t i (.playAudio (t.value globals cue .main).1)
  | playVfx {vfx : Param AssetId} (action : i.action = .playVfx vfx) :
      Asks globals t i (.playVfx t.player.emitter (t.value globals vfx .main).1)
  | stopVfx {vfx : Param AssetId} (action : i.action = .stopVfx vfx) :
      Asks globals t i (.stopVfx t.player.emitter (t.value globals vfx .main).1)
  | kill (action : i.action = .die) : Asks globals t i (.kill t.player.emitter)
  | toggle {module : Module} {on : Bool} (action : i.action = .toggle module on) :
      Asks globals t i (.toggle t.player.emitter module on)
  | control {command : Command} {recipient : Recipient} (action : i.action = .command command recipient)
      (other : recipient ≠ .self) : Asks globals t i (.control t.player.emitter recipient command)
  | apply {edit : Edit Param} (action : i.action = .edit edit)
      (same : (t.mutation globals edit).1.shape = edit.shape)
      (atOnce : i.timing = .instant ∨ (t.mutation globals edit).1.isGradual = false) :
      Asks globals t i (.apply t.player.emitter (t.mutation globals edit).1)
  | schedule {edit : Edit Param} {lasting : Param Single} {easing : Param (Curve Single)} {duration : Single}
      {curve : Curve Single} (action : i.action = .edit edit)
      (same : (t.mutation globals edit).1.shape = edit.shape) (progressive : i.timing = .progressive lasting easing)
      (gradual : (t.mutation globals edit).1.isGradual = true) (least : 0 ≤ duration) :
      Asks globals t i (.schedule t.player.emitter (t.mutation globals edit).1 duration curve)

/-- The effects are what the instruction asks for: one, or none. -/
def AsksOnce (globals : Blackboard) (t : Turn) (i : Instruction) (new : List Effect) : Prop :=
  if i.action.asksHost then ∃ e, new = [e] ∧ Asks globals t i e else new = []

theorem AsksOnce.one {e : Effect} (asks : i.action.asksHost = true) (h : Asks globals t i e) :
    AsksOnce globals t i [e] := by
  rw [AsksOnce, if_pos asks]
  exact ⟨e, rfl, h⟩

theorem AsksOnce.none (silent : i.action.asksHost = false) : AsksOnce globals t i [] := by
  rw [AsksOnce, silent]
  rfl

/-- The effects match the executions that ask for any. -/
def Answers (globals : Blackboard) (executed : List (Turn × Instruction)) (new : List Effect) : Prop :=
  List.Forall₂ (fun x e => Asks globals x.1 x.2 e) (executed.filter (·.2.action.asksHost)) new

theorem Answers.append {executed executed' : List (Turn × Instruction)} {new new' : List Effect}
    (h : Answers globals executed new) (h' : Answers globals executed' new') :
    Answers globals (executed ++ executed') (new ++ new') := by
  unfold Answers at *
  rw [List.filter_append]
  exact List.rel_append h h'

end Turn

namespace Player

end Player

end Danmaku
