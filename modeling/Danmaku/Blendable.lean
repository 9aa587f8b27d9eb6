import Danmaku.Gradient
import Danmaku.Payload

/-! The types of value that a parameter can have. Each can be blended, at least by a switch at the
middle, and goes into an untyped payload and back; some read payloads of a near type too. -/

namespace Danmaku

class Blendable (α : Type) where
  blend : α → α → Single → α
  ofPayload? : Payload → Option α
  toPayload : α → Payload
  ofGradient? : Gradient → Single → Option α := fun _ _ => none

export Blendable (ofPayload? toPayload ofGradient?)

namespace Blendable

/-- The blend of values with nothing in between. -/
def switch {α : Type} (x y : α) (t : Single) : α := if t < 0.5 then x else y

instance : Blendable Single where
  blend := Single.lerp
  ofPayload?
    | .float x => some x
    | .int n => some (.ofInt n.toInt)
    | _ => none
  toPayload := .float

/-- Blends as single-precision numbers and rounds, halves away from zero. -/
instance : Blendable Int32 where
  blend m n t :=
    if t ≤ 0 then m else if 1 ≤ t then n else
      (Single.lerp (.ofInt m.toInt) (.ofInt n.toInt) t).nearestInt32
  ofPayload?
    | .int n => some n
    | .float x => some x.nearestInt32
    | _ => none
  toPayload := .int

instance : Blendable Bool where
  blend := switch
  ofPayload?
    | .bool b => some b
    | _ => none
  toPayload := .bool

instance : Blendable (Vec2 Single) where
  blend := Vec2.lerp
  ofPayload?
    | .vec2 v => some v
    | .vec3 v => some ⟨v.x, v.y⟩
    | _ => none
  toPayload := .vec2

instance : Blendable Vec3 where
  blend := Vec3.lerp
  ofPayload?
    | .vec3 v => some v
    | .vec2 v => some ⟨v.x, v.y, 0⟩
    | _ => none
  toPayload := .vec3

instance : Blendable Vec4 where
  blend := Vec4.lerp
  ofPayload?
    | .vec4 v => some v
    | .color c => some c.toVec4
    | _ => none
  toPayload := .vec4

instance : Blendable Color where
  blend := Color.lerp
  ofPayload?
    | .color c => some c
    | .vec4 v => some (.ofVec4 v)
    | _ => none
  toPayload := .color
  ofGradient? g t := some (g.evaluate t)

instance : Blendable (Curve Single) where
  blend := switch
  ofPayload?
    | .curve c => some c
    | _ => none
  toPayload := .curve

instance : Blendable String where
  blend := switch
  ofPayload?
    | .text s => some s
    | _ => none
  toPayload := .text

instance : Blendable AssetId where
  blend := switch
  ofPayload?
    | .asset a => some a
    | _ => none
  toPayload := .asset

end Blendable

end Danmaku
