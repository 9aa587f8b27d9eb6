import Danmaku.Edit
import Danmaku.Shot

/-! What a running pattern asks of its host. A pattern changes nothing outside of itself and the swarm;
everything else is an effect, in the order in which it was asked for. -/

namespace Danmaku

/-- The modules of a projectile that can be switched. -/
inductive Module where
  | homing | curve (target : CurveTarget) | renderer | collision
  deriving DecidableEq

inductive Command where
  | play | pause | stop | reboot
  deriving DecidableEq

/-- Which pattern of an emitter a command is for. -/
inductive Recipient where
  | self | byIndex (index : UInt32) | byTag (tag : String)
  deriving DecidableEq

inductive Effect where
  | apply (projectile : ProjectileId) (mutation : Mutation)
  /-- Applies over a duration, remapped by an easing curve. -/
  | schedule (projectile : ProjectileId) (mutation : Mutation) (duration : Single) (easing : Curve Single)
  | toggle (projectile : ProjectileId) (module : Module) (on : Bool)
  | kill (projectile : ProjectileId)
  | shoot (volley : Volley) (muzzle : Muzzle)
  | playAudio (cue : AssetId)
  | playVfx (projectile : ProjectileId) (vfx : AssetId)
  | stopVfx (projectile : ProjectileId) (vfx : AssetId)
  | control (projectile : ProjectileId) (recipient : Recipient) (command : Command)

/-- An effect, or something to log between effects. -/
inductive Event where
  | effect (effect : Effect)
  | notice (notice : Notice)

def Event.effect? : Event → Option Effect
  | effect e => some e
  | notice _ => none

end Danmaku
