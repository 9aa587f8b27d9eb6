import Danmaku.Codec.Tree

/-! Codecs of shots and pattern programs. -/

namespace Danmaku

instance : Coded CurveTarget := .ofNamed

instance : Coded TagOp := .ofNamed

instance : Coded Preference := .ofNamed

instance : Coded Command := .ofNamed

namespace Selection

def rangeFields : Fields (UInt32 × UInt32) (UInt32 × UInt32) := .pair "start" "end"

def everyNthFields : Fields (UInt32 × UInt32) (UInt32 × UInt32) := .pair "step" "offset"

def cases : List (Case Selection) :=
  [.ofDecoder "Range" fun j => (fun r => .range r.1 r.2) <$> rangeFields.decode j,
    .ofDecoder "EveryNth" fun j => (fun r => .everyNth r.1 r.2) <$> everyNthFields.decode j,
    .data "Indices" .indices]

instance : Coded Selection where
  encode
    | range first stop => tagged "Range" (rangeFields.encode (first, stop))
    | everyNth step offset => tagged "EveryNth" (everyNthFields.encode (step, offset))
    | indices list => tagged "Indices" (encode list)
  decode := Case.decode cases

end Selection

instance : Coded Pivot where
  encode
    | .origin => .string "Origin"
    | .running => .string "Running"
    | .point p => tagged "Point" (encode p)
  decode := Case.decode [.unit "Origin" .origin, .unit "Running" .running, .data "Point" .point]

namespace Step

def spreadName (axis : Axis) : String := "Spread" ++ Named.name axis

def spaceName (axis : Axis) : String := "Spacing" ++ Named.name axis

def rotateFields : Fields (Param Single × Pivot) (Param Single × Pivot) :=
  Fields.start (Param Single × Pivot) Prod.mk |>.required "degrees" (·.1) |>.optional "pivot" (·.2) .origin

def scaleFields : Fields (Param (Vec2 Single) × Pivot) (Param (Vec2 Single) × Pivot) :=
  Fields.start (Param (Vec2 Single) × Pivot) Prod.mk |>.required "scale" (·.1)
    |>.optional "pivot" (·.2) .origin

def resetFields : Fields (Bool × Bool) (Bool × Bool) := .pair "position" "rotation"

def cases : List (Case (Step Param)) :=
  [.data "Select" .select, .unit "SelectAll" .selectAll] ++
    Named.all.map (fun axis => .data (spreadName axis) (.spread axis)) ++
    Named.all.map (fun axis => .data (spaceName axis) (.space axis)) ++
    [.data "TranslateGlobal" .translate, .data "TranslateLocal" .translateLocal, .data "SetPivot" .setPivot,
      .ofDecoder "Rotate" fun j => (fun r => .rotate r.1 r.2) <$> rotateFields.decode j,
      .ofDecoder "Scale" fun j => (fun r => .scale r.1 r.2) <$> scaleFields.decode j,
      .data "LookAt" .lookAt, .data "LookAway" .lookAway,
      .ofDecoder "ResetCoordinates" fun j => (fun r => .reset r.1 r.2) <$> resetFields.decode j,
      .data "OverrideBullet" .setBullet]

instance : Coded (Step Param) where
  encode
    | select s => tagged "Select" (encode s)
    | selectAll => .string "SelectAll"
    | spread axis total => tagged (spreadName axis) (encode total)
    | space axis gap => tagged (spaceName axis) (encode gap)
    | translate p => tagged "TranslateGlobal" (encode p)
    | translateLocal p => tagged "TranslateLocal" (encode p)
    | setPivot p => tagged "SetPivot" (encode p)
    | rotate degrees pivot => tagged "Rotate" (rotateFields.encode (degrees, pivot))
    | scale factor pivot => tagged "Scale" (scaleFields.encode (factor, pivot))
    | lookAt p => tagged "LookAt" (encode p)
    | lookAway p => tagged "LookAway" (encode p)
    | reset position heading => tagged "ResetCoordinates" (resetFields.encode (position, heading))
    | setBullet a => tagged "OverrideBullet" (encode a)
  decode := Case.decode cases

end Step

def Shot.fields : Fields Shot Shot :=
  Fields.start Shot Shot.mk |>.required "id" (·.id) |>.required "bullet_count" (·.count)
    |>.required "bullet" (·.bullet) |>.optional "modifiers" (·.modifiers) []

instance : Coded Shot := Shot.fields.coded

namespace Recipient

def cases : List (Case Recipient) :=
  [.unit "ThisPattern" .self, .data "ByIndex" .byIndex, .data "ByTag" .byTag]

instance : Coded Recipient where
  encode
    | self => .string "ThisPattern"
    | byIndex index => tagged "ByIndex" (encode index)
    | byTag tag => tagged "ByTag" (encode tag)
  decode := Case.decode cases

end Recipient

instance : Coded Module where
  encode
    | .homing => .string "Homing"
    | .curve target => tagged "Curve" (encode target)
    | .renderer => .string "Renderer"
    | .collision => .string "Collision"
  decode := Case.decode
    [.unit "Homing" .homing, .data "Curve" .curve, .unit "Renderer" .renderer, .unit "Collision" .collision]

namespace Kind

def loopFields : Fields (Param Int32 × Bool) (Param Int32 × Bool) :=
  Fields.start (Param Int32 × Bool) Prod.mk |>.required "iterations" (·.1) |>.optional "endless" (·.2) false

def tagFields : Fields (TagOp × Param String) (TagOp × Param String) :=
  Fields.start (TagOp × Param String) Prod.mk |>.optional "op" (·.1) .set |>.required "tags" (·.2)

def curveFields : Fields (CurveTarget × Param (Curve Single)) (CurveTarget × Param (Curve Single)) :=
  .pair "target" "curve"

/-- A number of the curve that drives a property. -/
def curveNumberFields (field : String) : Fields (CurveTarget × Param Single) (CurveTarget × Param Single) :=
  .pair "target" field

def foldFields : Fields (CurveTarget × Fold) (CurveTarget × Fold) := .pair "target" "wrap"

/-- A number of the emitter. -/
def customFields (field : String) : Fields (String × Param Single) (String × Param Single) := .pair "name" field

def mainCases : List (Case Kind) :=
  [.data "Wait" .wait, .data "Shoot" .shoot,
    .ofDecoder "BeginLoop" fun j => (fun r => .beginLoop r.1 r.2) <$> loopFields.decode j,
    .unit "EndLoop" .endLoop, .data "PlayAudio" .playAudio, .data "PlayVfx" .playVfx, .data "StopVfx" .stopVfx,
    .unit "Die" .die]

def transformCases : List (Case Kind) :=
  [.data "TranslateGlobal" .translateGlobal, .data "TranslateLocal" .translateLocal,
    .data "SetWorldPosition" .setWorldPosition, .data "SetLocalPosition" .setLocalPosition,
    .data "Rotate" .rotate, .data "SetWorldRotation" .setWorldRotation,
    .data "SetLocalRotation" .setLocalRotation, .data "SetSpeed" .setSpeed, .data "MultiplySpeed" .multiplySpeed,
    .data "SetAngularSpeed" .setAngularSpeed, .data "MultiplyAngularSpeed" .multiplyAngularSpeed,
    .data "SetScale" .setScale, .data "MultiplyScale" .multiplyScale]

def homingCases : List (Case Kind) :=
  [.unit "EnableHoming" .enableHoming, .unit "DisableHoming" .disableHoming, .data "TurnToTarget" .turnToTarget,
    .data "ChangeTarget" .changeTarget, .data "SetHomingSpeed" .setHomingSpeed,
    .data "MultiplyHomingSpeed" .multiplyHomingSpeed,
    .ofDecoder "ChangeHomingTags" fun j => (fun r => .changeHomingTags r.1 r.2) <$> tagFields.decode j]

def curveCases : List (Case Kind) :=
  [.data "EnableCurve" .enableCurve, .data "DisableCurve" .disableCurve, .data "PlayCurve" .playCurve,
    .data "PauseCurve" .pauseCurve, .data "RewindCurve" .rewindCurve, .data "ResetCurve" .resetCurve,
    .ofDecoder "SetCurve" fun j => (fun r => .setCurve r.1 r.2) <$> curveFields.decode j,
    .ofDecoder "SetCurveDuration" fun j =>
      (fun r => .setCurveDuration r.1 r.2) <$> (curveNumberFields "duration").decode j,
    .ofDecoder "MultiplyCurveDuration" fun j =>
      (fun r => .multiplyCurveDuration r.1 r.2) <$> (curveNumberFields "factor").decode j,
    .ofDecoder "SetCurveWrapMode" fun j => (fun r => .setCurveFold r.1 r.2) <$> foldFields.decode j,
    .ofDecoder "SetCurveProgress" fun j =>
      (fun r => .setCurveProgress r.1 r.2) <$> (curveNumberFields "progress").decode j]

def graphicsCases : List (Case Kind) :=
  [.unit "EnableRenderer" .enableRenderer, .unit "DisableRenderer" .disableRenderer, .data "SetColor" .setColor,
    .data "AddColor" .addColor, .data "MultiplyColor" .multiplyColor, .data "OverlayColor" .overlayColor,
    .data "SetAlpha" .setAlpha, .data "AddAlpha" .addAlpha, .data "MultiplyAlpha" .multiplyAlpha]

def collisionCases : List (Case Kind) :=
  [.unit "EnableCollision" .enableCollision, .unit "DisableCollision" .disableCollision,
    .ofDecoder "ChangeCollisionTags" fun j => (fun r => .changeCollisionTags r.1 r.2) <$> tagFields.decode j,
    .data "SetCollisionSize" .setCollisionSize, .data "MultiplyCollisionSize" .multiplyCollisionSize]

def customCases : List (Case Kind) :=
  [.ofDecoder "SetCustomScalar" fun j => (fun r => .setCustom r.1 r.2) <$> (customFields "value").decode j,
    .ofDecoder "AddCustomScalar" fun j => (fun r => .addCustom r.1 r.2) <$> (customFields "delta").decode j]

def patternCases : List (Case Kind) :=
  [.data "PlayPattern" .playPattern, .data "PausePattern" .pausePattern, .data "StopPattern" .stopPattern,
    .data "RebootPattern" .rebootPattern]

def cases : List (Case Kind) :=
  mainCases ++ transformCases ++ homingCases ++ curveCases ++ graphicsCases ++ collisionCases ++ customCases ++
    patternCases

instance : Coded Kind where
  encode
    | wait p => tagged "Wait" (encode p)
    | shoot shot => tagged "Shoot" (encode shot)
    | beginLoop p endless => tagged "BeginLoop" (loopFields.encode (p, endless))
    | endLoop => .string "EndLoop"
    | playAudio p => tagged "PlayAudio" (encode p)
    | playVfx p => tagged "PlayVfx" (encode p)
    | stopVfx p => tagged "StopVfx" (encode p)
    | die => .string "Die"
    | translateGlobal p => tagged "TranslateGlobal" (encode p)
    | translateLocal p => tagged "TranslateLocal" (encode p)
    | setWorldPosition p => tagged "SetWorldPosition" (encode p)
    | setLocalPosition p => tagged "SetLocalPosition" (encode p)
    | rotate p => tagged "Rotate" (encode p)
    | setWorldRotation p => tagged "SetWorldRotation" (encode p)
    | setLocalRotation p => tagged "SetLocalRotation" (encode p)
    | setSpeed p => tagged "SetSpeed" (encode p)
    | multiplySpeed p => tagged "MultiplySpeed" (encode p)
    | setAngularSpeed p => tagged "SetAngularSpeed" (encode p)
    | multiplyAngularSpeed p => tagged "MultiplyAngularSpeed" (encode p)
    | setScale p => tagged "SetScale" (encode p)
    | multiplyScale p => tagged "MultiplyScale" (encode p)
    | enableHoming => .string "EnableHoming"
    | disableHoming => .string "DisableHoming"
    | turnToTarget p => tagged "TurnToTarget" (encode p)
    | changeTarget preference => tagged "ChangeTarget" (encode preference)
    | setHomingSpeed p => tagged "SetHomingSpeed" (encode p)
    | multiplyHomingSpeed p => tagged "MultiplyHomingSpeed" (encode p)
    | changeHomingTags op p => tagged "ChangeHomingTags" (tagFields.encode (op, p))
    | enableCurve target => tagged "EnableCurve" (encode target)
    | disableCurve target => tagged "DisableCurve" (encode target)
    | playCurve target => tagged "PlayCurve" (encode target)
    | pauseCurve target => tagged "PauseCurve" (encode target)
    | rewindCurve target => tagged "RewindCurve" (encode target)
    | resetCurve target => tagged "ResetCurve" (encode target)
    | setCurve target p => tagged "SetCurve" (curveFields.encode (target, p))
    | setCurveDuration target p =>
      tagged "SetCurveDuration" ((curveNumberFields "duration").encode (target, p))
    | multiplyCurveDuration target p =>
      tagged "MultiplyCurveDuration" ((curveNumberFields "factor").encode (target, p))
    | setCurveFold target fold => tagged "SetCurveWrapMode" (foldFields.encode (target, fold))
    | setCurveProgress target p =>
      tagged "SetCurveProgress" ((curveNumberFields "progress").encode (target, p))
    | enableRenderer => .string "EnableRenderer"
    | disableRenderer => .string "DisableRenderer"
    | setColor p => tagged "SetColor" (encode p)
    | addColor p => tagged "AddColor" (encode p)
    | multiplyColor p => tagged "MultiplyColor" (encode p)
    | overlayColor p => tagged "OverlayColor" (encode p)
    | setAlpha p => tagged "SetAlpha" (encode p)
    | addAlpha p => tagged "AddAlpha" (encode p)
    | multiplyAlpha p => tagged "MultiplyAlpha" (encode p)
    | enableCollision => .string "EnableCollision"
    | disableCollision => .string "DisableCollision"
    | changeCollisionTags op p => tagged "ChangeCollisionTags" (tagFields.encode (op, p))
    | setCollisionSize p => tagged "SetCollisionSize" (encode p)
    | multiplyCollisionSize p => tagged "MultiplyCollisionSize" (encode p)
    | setCustom name p => tagged "SetCustomScalar" ((customFields "value").encode (name, p))
    | addCustom name p => tagged "AddCustomScalar" ((customFields "delta").encode (name, p))
    | playPattern recipient => tagged "PlayPattern" (encode recipient)
    | pausePattern recipient => tagged "PausePattern" (encode recipient)
    | stopPattern recipient => tagged "StopPattern" (encode recipient)
    | rebootPattern recipient => tagged "RebootPattern" (encode recipient)
  decode := Case.decode cases

end Kind

namespace Timing

def fields : Fields (Param Single × Param (Curve Single)) (Param Single × Param (Curve Single)) :=
  .pair "duration" "easing"

instance : Coded Timing where
  encode
    | instant => .string "Instant"
    | progressive duration easing => tagged "Progressive" (fields.encode (duration, easing))
  decode := Case.decode
    [.unit "Instant" .instant,
      .ofDecoder "Progressive" fun j => (fun r => .progressive r.1 r.2) <$> fields.decode j]

end Timing

def Instruction.fields : Fields Instruction Instruction :=
  Fields.start Instruction Instruction.mk |>.optional "enabled" (·.enabled) true |>.required "kind" (·.kind)
    |>.optional "timing" (·.timing) .instant

instance : Coded Instruction := Instruction.fields.coded

namespace Program

def fields : Fields Program Program :=
  Fields.start Program Program.mk |>.required "id" (·.id) |>.required "instructions" (·.instructions)

instance : Coded Program := fields.coded

end Program

end Danmaku
