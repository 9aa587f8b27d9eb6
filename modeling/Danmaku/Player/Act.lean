import Danmaku.Player.Turn

/-! The kinds of instructions by what they come to. A kind with a case of its own in `Turn.execute` is an action of its
own; the kinds that give commands, switch modules or make edits are one action each. Every kind is listed here, so none
is left over where the three are told apart from each other. -/

namespace Danmaku

inductive Action where
  | wait (seconds : Param Single)
  | shoot (shot : Shot)
  | beginLoop (iterations : Param Int32) (endless : Bool)
  | endLoop
  | playAudio (cue : Param AssetId)
  | playVfx (vfx : Param AssetId)
  | stopVfx (vfx : Param AssetId)
  | die
  | edit (edit : Edit Param)
  | toggle (module : Module) (on : Bool)
  | setCustom (name : String) (value : Param Single)
  | addCustom (name : String) (delta : Param Single)
  | command (command : Command) (recipient : Recipient)

namespace Kind

def action : Kind → Action
  | wait seconds => .wait seconds
  | shoot shot => .shoot shot
  | beginLoop iterations endless => .beginLoop iterations endless
  | endLoop => .endLoop
  | playAudio cue => .playAudio cue
  | playVfx vfx => .playVfx vfx
  | stopVfx vfx => .stopVfx vfx
  | die => .die
  | translateGlobal p => .edit (.point .translateGlobal p)
  | translateLocal p => .edit (.point .translateLocal p)
  | setWorldPosition p => .edit (.point .setWorldPosition p)
  | setLocalPosition p => .edit (.point .setLocalPosition p)
  | rotate p => .edit (.number .rotate p)
  | setWorldRotation p => .edit (.number .setWorldRotation p)
  | setLocalRotation p => .edit (.number .setLocalRotation p)
  | setSpeed p => .edit (.number .setSpeed p)
  | multiplySpeed p => .edit (.number .multiplySpeed p)
  | setAngularSpeed p => .edit (.number .setAngularSpeed p)
  | multiplyAngularSpeed p => .edit (.number .multiplyAngularSpeed p)
  | setScale p => .edit (.number .setScale p)
  | multiplyScale p => .edit (.number .multiplyScale p)
  | enableHoming => .toggle .homing true
  | disableHoming => .toggle .homing false
  | turnToTarget p => .edit (.number .turnToTarget p)
  | changeTarget preference => .edit (.retarget preference)
  | setHomingSpeed p => .edit (.number .setHomingSpeed p)
  | multiplyHomingSpeed p => .edit (.number .multiplyHomingSpeed p)
  | changeHomingTags op p => .edit (.tags .homing op p)
  | enableCurve target => .toggle (.curve target) true
  | disableCurve target => .toggle (.curve target) false
  | playCurve target => .edit (.playback target .play)
  | pauseCurve target => .edit (.playback target .pause)
  | rewindCurve target => .edit (.playback target .rewind)
  | resetCurve target => .edit (.playback target .reset)
  | setCurve target p => .edit (.setCurve target p)
  | setCurveDuration target p => .edit (.curveNumber .setDuration target p)
  | multiplyCurveDuration target p => .edit (.curveNumber .multiplyDuration target p)
  | setCurveFold target fold => .edit (.setFold target fold)
  | setCurveProgress target p => .edit (.curveNumber .setProgress target p)
  | enableRenderer => .toggle .renderer true
  | disableRenderer => .toggle .renderer false
  | setColor p => .edit (.color .set p)
  | addColor p => .edit (.color .add p)
  | multiplyColor p => .edit (.color .multiply p)
  | overlayColor p => .edit (.color .overlay p)
  | setAlpha p => .edit (.number .setAlpha p)
  | addAlpha p => .edit (.number .addAlpha p)
  | multiplyAlpha p => .edit (.number .multiplyAlpha p)
  | enableCollision => .toggle .collision true
  | disableCollision => .toggle .collision false
  | changeCollisionTags op p => .edit (.tags .collision op p)
  | setCollisionSize p => .edit (.number .setCollisionSize p)
  | multiplyCollisionSize p => .edit (.number .multiplyCollisionSize p)
  | setCustom name value => .setCustom name value
  | addCustom name delta => .addCustom name delta
  | playPattern recipient => .command .play recipient
  | pausePattern recipient => .command .pause recipient
  | stopPattern recipient => .command .stop recipient
  | rebootPattern recipient => .command .reboot recipient

end Kind

def Instruction.action (i : Instruction) : Action := i.kind.action

namespace Action

def isLoopBegin : Action → Bool
  | beginLoop .. => true
  | _ => false

def isLoopEnd : Action → Bool
  | endLoop => true
  | _ => false

end Action

@[simp]
theorem Kind.isLoopBegin_action (k : Kind) : k.action.isLoopBegin = k.isLoopBegin := by
  cases k <;> rfl

@[simp]
theorem Kind.isLoopEnd_action (k : Kind) : k.action.isLoopEnd = k.isLoopEnd := by
  cases k <;> rfl

namespace Turn

/-- Carries out an action, as far as it is not about the course of the program. -/
def act (t : Turn) (globals : Blackboard) (action : Action) (timing : Timing) : Turn :=
  match action with
  | .shoot shot => t.shoot globals shot
  | .playAudio cue =>
    let v := t.value globals cue .main
    v.2.emit (.playAudio v.1)
  | .playVfx vfx =>
    let v := t.value globals vfx .main
    v.2.emit (.playVfx t.player.emitter v.1)
  | .stopVfx vfx =>
    let v := t.value globals vfx .main
    v.2.emit (.stopVfx t.player.emitter v.1)
  | .edit edit => t.edit globals edit timing
  | .toggle module on => t.emit (.toggle t.player.emitter module on)
  | .setCustom name value =>
    let v := t.value globals value .main
    v.2.setCustom name v.1
  | .addCustom name delta =>
    let v := t.value globals delta .main
    v.2.addCustom name v.1
  | .command command recipient => t.emit (.control t.player.emitter recipient command)
  | .wait _ | .beginLoop .. | .endLoop | .die => t

/-- Carries out any action. -/
def perform (t : Turn) (globals : Blackboard) (action : Action) (timing : Timing) : Flow × Turn :=
  match action with
  | .wait seconds => t.wait globals seconds
  | .beginLoop iterations endless => t.beginLoop globals iterations endless
  | .endLoop => t.endLoop
  | .die => (.finish, t.emit (.kill t.player.emitter))
  | .command command .self => t.commandSelf command
  | action => (.next, t.act globals action timing)

/-- Executing an instruction is carrying out its action, whatever its kind is. -/
theorem execute_eq_perform (t : Turn) (globals : Blackboard) (i : Instruction) :
    t.execute globals i = t.perform globals i.action i.timing := by
  unfold execute Instruction.action
  cases i.kind with
  | playPattern recipient => cases recipient <;> rfl
  | pausePattern recipient => cases recipient <;> rfl
  | stopPattern recipient => cases recipient <;> rfl
  | rebootPattern recipient => cases recipient <;> rfl
  | _ => rfl

end Turn

end Danmaku
