import Danmaku.Tree

/-! Edits of a projectile: the changes that a pattern asks its host to make. As with layout steps, an
authored edit holds parameters and a mutation holds values, so an edit is stated once for any form `f`. -/

namespace Danmaku

/-- The properties that a curve can drive. -/
inductive CurveTarget where
  | speed | angularSpeed | scale | homingSpeed | color | alpha
  deriving DecidableEq

inductive Playback where
  | play | pause | rewind | reset
  deriving DecidableEq

inductive TagOp where
  | set | add | remove
  deriving DecidableEq

/-- Which candidate a homing projectile turns to. -/
inductive Preference where
  | closest | farthest | random | oldest | newest
  deriving DecidableEq

inductive PointEdit where
  | translateGlobal | translateLocal | setWorldPosition | setLocalPosition
  deriving DecidableEq

inductive NumberEdit where
  | rotate | setWorldRotation | setLocalRotation
  | setSpeed | multiplySpeed | setAngularSpeed | multiplyAngularSpeed | setScale | multiplyScale
  | turnToTarget | setHomingSpeed | multiplyHomingSpeed
  | setAlpha | addAlpha | multiplyAlpha
  | setCollisionSize | multiplyCollisionSize
  deriving DecidableEq

/-- Edits of the curve that drives a property. -/
inductive CurveEdit where
  | setDuration | multiplyDuration | setProgress
  deriving DecidableEq

inductive ColorEdit where
  | set | add | multiply | overlay
  deriving DecidableEq

inductive TagList where
  | homing | collision
  deriving DecidableEq

/-- A ratio is within `[0, 1]` and a size is not negative. -/
def NumberEdit.bound : NumberEdit → Single → Single
  | turnToTarget, x => x.clamp 0 1
  | setCollisionSize, x => x.raisedTo 0
  | _, x => x

def CurveEdit.bound : CurveEdit → Single → Single
  | setDuration, x => x.raisedTo 0
  | setProgress, x => x.clamp 0 1
  | multiplyDuration, x => x

inductive Edit (f : Type → Type) where
  | point (what : PointEdit) (value : f (Vec2 Single))
  | number (what : NumberEdit) (value : f Single)
  | color (what : ColorEdit) (value : f Color)
  | curveNumber (what : CurveEdit) (target : CurveTarget) (value : f Single)
  | setCurve (target : CurveTarget) (curve : f (Curve Single))
  | setFold (target : CurveTarget) (fold : Fold)
  | playback (target : CurveTarget) (action : Playback)
  | retarget (preference : Preference)
  | tags (list : TagList) (op : TagOp) (tags : f String)

/-- An edit whose values are known. -/
abbrev Mutation := Edit fun α => α

namespace Edit

/-- Whether a host can spread the edit over time. -/
def isGradual {f : Type → Type} : Edit f → Bool
  | setCurve .. | setFold .. | playback .. | retarget .. | tags .. => false
  | _ => true

/-- Draws the value of an edit and bounds it. -/
def resolve {m : Type → Type} [Monad m] {f : Type → Type} (value : {α : Type} → [Blendable α] → f α → m α) :
    Edit f → m Mutation
  | point what p => point what <$> value p
  | number what p => (fun x => number what (what.bound x)) <$> value p
  | color what p => color what <$> value p
  | curveNumber what target p => (fun x => curveNumber what target (what.bound x)) <$> value p
  | setCurve target p => setCurve target <$> value p
  | setFold target fold => pure (setFold target fold)
  | playback target action => pure (playback target action)
  | retarget preference => pure (retarget preference)
  | tags list op p => tags list op <$> value p

end Edit

end Danmaku
