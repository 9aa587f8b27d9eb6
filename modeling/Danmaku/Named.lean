import Danmaku.Codec
import Danmaku.Player

/-! The names of enumerated values, as files and logs show them. -/

namespace Danmaku

instance : Named Fold where
  all := [.clamp, .loop, .pingPong]
  name
    | .clamp => "Clamp"
    | .loop => "Loop"
    | .pingPong => "PingPong"

/-- A gradient that holds its stops is fixed between them. -/
instance : Named GradientMode where
  all := [.blend, .hold]
  name
    | .blend => "Blend"
    | .hold => "Fixed"

instance : Named Owner where
  all := [.bullet, .shot, .pattern]
  name
    | .bullet => "Bullet"
    | .shot => "Shot"
    | .pattern => "Pattern"

instance : Named Reference.Holder where
  all := [.global, .lineage]
  name
    | .global => "Global"
    | .lineage => "Hierarchy"

/-- The ending of a layout step on an axis. -/
instance : Named Axis where
  all := [.heading, .x, .y]
  name
    | .heading => "Angle"
    | .x => "Horizontal"
    | .y => "Vertical"

instance : Named CurveTarget where
  all := [.speed, .angularSpeed, .scale, .homingSpeed, .color, .alpha]
  name
    | .speed => "Speed"
    | .angularSpeed => "AngularSpeed"
    | .scale => "Scale"
    | .homingSpeed => "HomingSpeed"
    | .color => "Color"
    | .alpha => "Alpha"

instance : Named Playback where
  all := [.play, .pause, .rewind, .reset]
  name
    | .play => "Play"
    | .pause => "Pause"
    | .rewind => "Rewind"
    | .reset => "Reset"

instance : Named TagOp where
  all := [.set, .add, .remove]
  name
    | .set => "Set"
    | .add => "Add"
    | .remove => "Remove"

instance : Named TagList where
  all := [.homing, .collision]
  name
    | .homing => "ChangeHomingTags"
    | .collision => "ChangeCollisionTags"

instance : Named Preference where
  all := [.closest, .farthest, .random, .oldest, .newest]
  name
    | .closest => "Closest"
    | .farthest => "Farthest"
    | .random => "Random"
    | .oldest => "Oldest"
    | .newest => "Newest"

instance : Named PointEdit where
  all := [.translateGlobal, .translateLocal, .setWorldPosition, .setLocalPosition]
  name
    | .translateGlobal => "TranslateGlobal"
    | .translateLocal => "TranslateLocal"
    | .setWorldPosition => "SetWorldPosition"
    | .setLocalPosition => "SetLocalPosition"

instance : Named NumberEdit where
  all := [.rotate, .setWorldRotation, .setLocalRotation, .setSpeed, .multiplySpeed, .setAngularSpeed,
    .multiplyAngularSpeed, .setScale, .multiplyScale, .turnToTarget, .setHomingSpeed, .multiplyHomingSpeed,
    .setAlpha, .addAlpha, .multiplyAlpha, .setCollisionSize, .multiplyCollisionSize]
  name
    | .rotate => "Rotate"
    | .setWorldRotation => "SetWorldRotation"
    | .setLocalRotation => "SetLocalRotation"
    | .setSpeed => "SetSpeed"
    | .multiplySpeed => "MultiplySpeed"
    | .setAngularSpeed => "SetAngularSpeed"
    | .multiplyAngularSpeed => "MultiplyAngularSpeed"
    | .setScale => "SetScale"
    | .multiplyScale => "MultiplyScale"
    | .turnToTarget => "TurnToTarget"
    | .setHomingSpeed => "SetHomingSpeed"
    | .multiplyHomingSpeed => "MultiplyHomingSpeed"
    | .setAlpha => "SetAlpha"
    | .addAlpha => "AddAlpha"
    | .multiplyAlpha => "MultiplyAlpha"
    | .setCollisionSize => "SetCollisionSize"
    | .multiplyCollisionSize => "MultiplyCollisionSize"

instance : Named CurveEdit where
  all := [.setDuration, .multiplyDuration, .setProgress]
  name
    | .setDuration => "SetCurveDuration"
    | .multiplyDuration => "MultiplyCurveDuration"
    | .setProgress => "SetCurveProgress"

/-- The name of the number in a curve edit. -/
def CurveEdit.field : CurveEdit → String
  | setDuration => "duration"
  | multiplyDuration => "factor"
  | setProgress => "progress"

instance : Named ColorEdit where
  all := [.set, .add, .multiply, .overlay]
  name
    | .set => "SetColor"
    | .add => "AddColor"
    | .multiply => "MultiplyColor"
    | .overlay => "OverlayColor"

instance : Named Command where
  all := [.play, .pause, .stop, .reboot]
  name
    | .play => "Play"
    | .pause => "Pause"
    | .stop => "Stop"
    | .reboot => "Reboot"

instance : Named Status where
  all := [.playing, .paused, .stopped, .done]
  name
    | .playing => "Playing"
    | .paused => "Paused"
    | .stopped => "Stopped"
    | .done => "Done"

end Danmaku
