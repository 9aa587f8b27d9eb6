import Danmaku.Color
import Danmaku.Curve

/-! Untyped values, as tables of named parameters and caches hold them. -/

namespace Danmaku

/-- A stable handle on something outside of the simulation, such as a sound or a bullet prefab. -/
structure AssetId where
  val : UInt32
  deriving DecidableEq

namespace AssetId

def none : AssetId := ⟨0⟩

def isNone (a : AssetId) : Bool := a.val == 0

instance : Inhabited AssetId := ⟨none⟩

end AssetId

inductive Payload where
  | float (x : Single) | int (n : Int32) | bool (b : Bool)
  | vec2 (v : Vec2 Single) | vec3 (v : Vec3) | vec4 (v : Vec4) | color (c : Color)
  | curve (c : Curve Single) | text (s : String) | asset (a : AssetId)
  deriving DecidableEq

end Danmaku
