import Danmaku.Effect

/-! Pattern programs: a flat list of instructions with loops between a begin and an end. A program need
not be well bracketed: an end without a begin does nothing, and a begin without an end runs to the end of
the list. Disabled instructions count for nothing. -/

namespace Danmaku

/-- What an instruction does. -/
inductive Kind where
  | wait (seconds : Param Single)
  | shoot (shot : Shot)
  | beginLoop (iterations : Param Int32) (endless : Bool)
  | endLoop
  | playAudio (cue : Param AssetId)
  | playVfx (vfx : Param AssetId)
  | stopVfx (vfx : Param AssetId)
  | die
  | translateGlobal (offset : Param (Vec2 Single))
  | translateLocal (offset : Param (Vec2 Single))
  | setWorldPosition (position : Param (Vec2 Single))
  | setLocalPosition (position : Param (Vec2 Single))
  | rotate (degrees : Param Single)
  | setWorldRotation (degrees : Param Single)
  | setLocalRotation (degrees : Param Single)
  | setSpeed (speed : Param Single)
  | multiplySpeed (factor : Param Single)
  | setAngularSpeed (speed : Param Single)
  | multiplyAngularSpeed (factor : Param Single)
  | setScale (scale : Param Single)
  | multiplyScale (factor : Param Single)
  | enableHoming
  | disableHoming
  | turnToTarget (ratio : Param Single)
  | changeTarget (preference : Preference)
  | setHomingSpeed (speed : Param Single)
  | multiplyHomingSpeed (factor : Param Single)
  | changeHomingTags (op : TagOp) (tags : Param String)
  | enableCurve (target : CurveTarget)
  | disableCurve (target : CurveTarget)
  | playCurve (target : CurveTarget)
  | pauseCurve (target : CurveTarget)
  | rewindCurve (target : CurveTarget)
  | resetCurve (target : CurveTarget)
  | setCurve (target : CurveTarget) (curve : Param (Curve Single))
  | setCurveDuration (target : CurveTarget) (duration : Param Single)
  | multiplyCurveDuration (target : CurveTarget) (factor : Param Single)
  | setCurveFold (target : CurveTarget) (fold : Fold)
  | setCurveProgress (target : CurveTarget) (progress : Param Single)
  | enableRenderer
  | disableRenderer
  | setColor (color : Param Color)
  | addColor (color : Param Color)
  | multiplyColor (color : Param Color)
  | overlayColor (color : Param Color)
  | setAlpha (alpha : Param Single)
  | addAlpha (alpha : Param Single)
  | multiplyAlpha (factor : Param Single)
  | enableCollision
  | disableCollision
  | changeCollisionTags (op : TagOp) (tags : Param String)
  | setCollisionSize (size : Param Single)
  | multiplyCollisionSize (factor : Param Single)
  | setCustom (name : String) (value : Param Single)
  | addCustom (name : String) (delta : Param Single)
  | playPattern (recipient : Recipient)
  | pausePattern (recipient : Recipient)
  | stopPattern (recipient : Recipient)
  | rebootPattern (recipient : Recipient)

namespace Kind

/-- The edit that the kind makes, if it makes one. -/
def edit? : Kind → Option (Edit Param)
  | translateGlobal p => some (.point .translateGlobal p)
  | translateLocal p => some (.point .translateLocal p)
  | setWorldPosition p => some (.point .setWorldPosition p)
  | setLocalPosition p => some (.point .setLocalPosition p)
  | rotate p => some (.number .rotate p)
  | setWorldRotation p => some (.number .setWorldRotation p)
  | setLocalRotation p => some (.number .setLocalRotation p)
  | setSpeed p => some (.number .setSpeed p)
  | multiplySpeed p => some (.number .multiplySpeed p)
  | setAngularSpeed p => some (.number .setAngularSpeed p)
  | multiplyAngularSpeed p => some (.number .multiplyAngularSpeed p)
  | setScale p => some (.number .setScale p)
  | multiplyScale p => some (.number .multiplyScale p)
  | turnToTarget p => some (.number .turnToTarget p)
  | changeTarget preference => some (.retarget preference)
  | setHomingSpeed p => some (.number .setHomingSpeed p)
  | multiplyHomingSpeed p => some (.number .multiplyHomingSpeed p)
  | changeHomingTags op p => some (.tags .homing op p)
  | playCurve target => some (.playback target .play)
  | pauseCurve target => some (.playback target .pause)
  | rewindCurve target => some (.playback target .rewind)
  | resetCurve target => some (.playback target .reset)
  | setCurve target p => some (.setCurve target p)
  | setCurveDuration target p => some (.curveNumber .setDuration target p)
  | multiplyCurveDuration target p => some (.curveNumber .multiplyDuration target p)
  | setCurveFold target fold => some (.setFold target fold)
  | setCurveProgress target p => some (.curveNumber .setProgress target p)
  | setColor p => some (.color .set p)
  | addColor p => some (.color .add p)
  | multiplyColor p => some (.color .multiply p)
  | overlayColor p => some (.color .overlay p)
  | setAlpha p => some (.number .setAlpha p)
  | addAlpha p => some (.number .addAlpha p)
  | multiplyAlpha p => some (.number .multiplyAlpha p)
  | changeCollisionTags op p => some (.tags .collision op p)
  | setCollisionSize p => some (.number .setCollisionSize p)
  | multiplyCollisionSize p => some (.number .multiplyCollisionSize p)
  | _ => none

/-- The module that the kind switches on or off, if it switches one. -/
def toggle? : Kind → Option (Module × Bool)
  | enableHoming => some (.homing, true)
  | disableHoming => some (.homing, false)
  | enableCurve target => some (.curve target, true)
  | disableCurve target => some (.curve target, false)
  | enableRenderer => some (.renderer, true)
  | disableRenderer => some (.renderer, false)
  | enableCollision => some (.collision, true)
  | disableCollision => some (.collision, false)
  | _ => none

/-- The command that the kind gives to a pattern, if it gives one. -/
def command? : Kind → Option (Command × Recipient)
  | playPattern recipient => some (.play, recipient)
  | pausePattern recipient => some (.pause, recipient)
  | stopPattern recipient => some (.stop, recipient)
  | rebootPattern recipient => some (.reboot, recipient)
  | _ => none

def isLoopBegin : Kind → Bool
  | beginLoop .. => true
  | _ => false

def isLoopEnd : Kind → Bool
  | endLoop => true
  | _ => false

end Kind

/-- How an edit is applied. -/
inductive Timing where
  | instant
  /-- Over a duration with an easing curve, where the edit can be spread. -/
  | progressive (duration : Param Single) (easing : Param (Curve Single))

structure Instruction where
  enabled : Bool := true
  kind : Kind
  timing : Timing := .instant

namespace Instruction

def wait (seconds : Single) : Instruction := { kind := .wait (.fixed seconds) }

def beginLoop (iterations : Int32) : Instruction := { kind := .beginLoop (.fixed iterations) false }

def endlessLoop : Instruction := { kind := .beginLoop (.fixed 0) true }

def endLoop : Instruction := { kind := .endLoop }

def shoot (shot : Shot) : Instruction := { kind := .shoot shot }

def disabled (i : Instruction) : Instruction := { i with enabled := false }

/-- Spread over a fixed duration with a fixed easing curve. -/
def spreadOver (i : Instruction) (duration : Single) (easing : Curve Single) : Instruction :=
  { i with timing := .progressive (.fixed duration) (.fixed easing) }

end Instruction

structure Program where
  id : UInt32
  instructions : List Instruction

namespace Program

def length (p : Program) : Nat := p.instructions.length

def isEmpty (p : Program) : Bool := p.instructions.isEmpty

/-- The distance from the start of a loop's body to just past the end that closes it, or to the end of
the list, with so many inner loops open. -/
def bodyLength (depth : Nat) : List Instruction → Nat
  | [] => 0
  | i :: is =>
    if i.enabled && i.kind.isLoopBegin then bodyLength (depth + 1) is + 1
    else if i.enabled && i.kind.isLoopEnd then
      match depth with
      | 0 => 1
      | depth + 1 => bodyLength depth is + 1
    else bodyLength depth is + 1

/-- Where to go on when the loop that begins at a position is not entered. -/
def afterLoop (p : Program) (begin : Nat) : Nat :=
  min (begin + 1) p.length + bodyLength 0 (p.instructions.drop (begin + 1))

/-- The begins of the loops that are open before a position, innermost first. -/
def openLoops (p : Program) (position : Nat) : List Nat :=
  (p.instructions.take position).zipIdx.foldl (fun opened (i, k) =>
    if i.enabled && i.kind.isLoopBegin then k :: opened
    else if i.enabled && i.kind.isLoopEnd then opened.tail
    else opened) []

end Program

end Danmaku
