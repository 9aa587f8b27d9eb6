import Danmaku.Inspect.Unshown
import Danmaku.Named
import Danmaku.Tree.Defect

/-! Descriptions of values for logs, in the manner of the terms that build them. -/

namespace Danmaku

class Inspect (α : Type) where
  inspect : α → String

export Inspect (inspect)

namespace Inspect

variable {α : Type}

def call (name : String) (args : List String) : String := name ++ "(" ++ ", ".intercalate args ++ ")"

def record (name : String) (fields : List (String × String)) : String :=
  name ++ " \x7b " ++ ", ".intercalate (fields.map fun f => f.1 ++ ": " ++ f.2) ++ " \x7d"

def list (items : List String) : String := "[" ++ ", ".intercalate items ++ "]"

/-- Numbers are written in full from `10 ^ -4` and below `10 ^ 16`, always with a point. -/
def numberStyle : Decimal.Style := { least := -4, greatest := 15, wholePoint := true, plus := [] }

def escape (c : Char) : String :=
  match c with
  | '"' => "\\\""
  | '\\' => "\\\\"
  | '\n' => "\\n"
  | '\r' => "\\r"
  | '\t' => "\\t"
  | '\x00' => "\\0"
  | c =>
    if isUnshown c then "\\u\x7b" ++ .ofList (Nat.toDigits 16 c.toNat) ++ "\x7d"
    else .singleton c

instance : Inspect Single := ⟨Single.text numberStyle⟩

instance : Inspect UInt32 := ⟨fun n => toString n.toNat⟩

instance : Inspect String := ⟨fun s => "\"" ++ .join (s.toList.map escape) ++ "\""⟩

instance [Named α] : Inspect α := ⟨Named.name⟩

instance : Inspect NodeIndex := ⟨fun i => call "NodeIndex" [inspect i.val]⟩

instance : Inspect ProjectileId := ⟨fun i => call "UnitId" [inspect i.val]⟩

instance : Inspect (Vec2 Single) := ⟨fun v => call "Vec2" [inspect v.x, inspect v.y]⟩

instance : Inspect Color :=
  ⟨fun c => record "Color" [("r", inspect c.r), ("g", inspect c.g), ("b", inspect c.b), ("a", inspect c.a)]⟩

instance : Inspect (Keyframe Single) :=
  ⟨fun k => record "CurveKey"
    [("time", inspect k.time), ("value", inspect k.value), ("in_tangent", inspect k.inTangent),
      ("out_tangent", inspect k.outTangent)]⟩

instance : Inspect (Curve Single) := ⟨fun c => record "Curve" [("keys", list (c.keys.map inspect))]⟩

instance : Inspect Module where
  inspect
    | .homing => "Homing"
    | .curve target => call "Curve" [inspect target]
    | .renderer => "Renderer"
    | .collision => "Collision"

instance : Inspect Recipient where
  inspect
    | .self => "ThisPattern"
    | .byIndex index => call "ByIndex" [inspect index]
    | .byTag tag => call "ByTag" [inspect tag]

instance : Inspect Facet where
  inspect
    | .placeX => call "Bullet" ["PositionInShotX"]
    | .placeY => call "Bullet" ["PositionInShotY"]
    | .spawnHeading => call "Bullet" ["RotationAtSpawn"]
    | .age => call "Bullet" ["TimeAlive"]
    | .custom name => call "Bullet" [call "CustomScalar" [inspect name]]
    | .shotIndex => call "Shot" ["SpawnOrder"]
    | .shotTime => call "Shot" ["SpawnTime"]
    | .slot => call "Pattern" ["Index"]
    | .patternShots => call "Pattern" ["ShotsFired"]
    | .patternTime => call "Pattern" ["TimePlayed"]

instance : Inspect Mutation where
  inspect
    | .point what v => call (inspect what) [inspect v]
    | .number what x => call (inspect what) [inspect x]
    | .color what c => call (inspect what) [inspect c]
    | .curveNumber what target x =>
      record (inspect what) [("target", inspect target), (what.field, inspect x)]
    | .setCurve target c => record "SetCurve" [("target", inspect target), ("curve", inspect c)]
    | .setFold target fold => record "SetCurveWrapMode" [("target", inspect target), ("wrap", inspect fold)]
    | .playback target action =>
      record "CurvePlayback" [("target", inspect target), ("action", inspect action)]
    | .retarget preference => call "ChangeTarget" [inspect preference]
    | .tags list op tags => record (inspect list) [("op", inspect op), ("tags", inspect tags)]

instance : Inspect Tree.Defect where
  inspect
    | .emptyBlend node => record "EmptyBlend" [("node", inspect node)]
    | .danglingChild node child => record "DanglingChild" [("node", inspect node), ("child", inspect child)]
    | .selfReference node => record "SelfReference" [("node", inspect node)]
    | .cycle node child => record "Cycle" [("node", inspect node), ("child", inspect child)]

instance : Inspect Fallback where
  inspect
    | .danglingIndex node => call "DanglingIndex" [inspect node]
    | .emptyBlend node => call "EmptyBlend" [inspect node]
    | .missingReference node name =>
      record "MissingReference" [("node", inspect node), ("name", inspect name)]
    | .unsupportedGradient node => call "UnsupportedGradient" [inspect node]
    | .cycle node => call "Cycle" [inspect node]
    | .depthExceeded node => call "DepthExceeded" [inspect node]
    | .visitsExceeded node => call "VisitsExceeded" [inspect node]

end Inspect

end Danmaku
