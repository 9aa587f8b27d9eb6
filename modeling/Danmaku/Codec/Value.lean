import Danmaku.Named

/-! Codecs of values: vectors, colors, curves, gradients, payloads and tables. -/

namespace Danmaku

instance : Coded Fold := .ofNamed

instance : Coded GradientMode := .ofNamed

/-- A list of two numbers. -/
instance : Coded (Vec2 Single) where
  encode v := encode [v.x, v.y]
  decode := Coded.tuple fun
    | [x, y] => some ⟨x, y⟩
    | (_ : List Single) => none

instance : Coded Vec3 where
  encode v := encode [v.x, v.y, v.z]
  decode := Coded.tuple fun
    | [x, y, z] => some ⟨x, y, z⟩
    | (_ : List Single) => none

instance : Coded Vec4 where
  encode v := encode [v.x, v.y, v.z, v.w]
  decode := Coded.tuple fun
    | [x, y, z, w] => some ⟨x, y, z, w⟩
    | (_ : List Single) => none

def Color.fields : Fields Color Color :=
  Fields.start Color Color.mk
    |>.required "r" (·.r) |>.required "g" (·.g) |>.required "b" (·.b) |>.required "a" (·.a)

instance : Coded Color := Color.fields.coded

def Keyframe.fields : Fields (Keyframe Single) (Keyframe Single) :=
  Fields.start (Keyframe Single) Keyframe.mk |>.required "time" (·.time) |>.required "value" (·.value)
    |>.optional "in_tangent" (·.inTangent) 0 |>.optional "out_tangent" (·.outTangent) 0

instance : Coded (Keyframe Single) := Keyframe.fields.coded

def Curve.fields : Fields (List (Keyframe Single)) (List (Keyframe Single)) := .only "keys"

/-- The keys are sorted when they are read. -/
instance : Coded (Curve Single) where
  encode c := Curve.fields.encode c.keys
  decode j := .ofKeys <$> Curve.fields.decode j

def Stop.colorFields : Fields (Stop Vec3) (Stop Vec3) :=
  Fields.start (Stop Vec3) (fun time r g b => ⟨time, r, g, b⟩)
    |>.required "time" (·.time) |>.required "r" (·.value.x)
    |>.required "g" (·.value.y) |>.required "b" (·.value.z)

instance : Coded (Stop Vec3) := Stop.colorFields.coded

def Stop.alphaFields : Fields (Stop Single) (Stop Single) :=
  Fields.start (Stop Single) Stop.mk |>.required "time" (·.time) |>.required "alpha" (·.value)

instance : Coded (Stop Single) := Stop.alphaFields.coded

/-- The stops are sorted when they are read. -/
def Gradient.fields : Fields Gradient Gradient :=
  Fields.start Gradient (fun colors alphas mode => ⟨.ofStops colors, .ofStops alphas, mode⟩)
    |>.required "color_stops" (·.colors.stops) |>.required "alpha_stops" (·.alphas.stops)
    |>.optional "mode" (·.mode) .blend

instance : Coded Gradient := Gradient.fields.coded

instance : Coded AssetId where
  encode a := encode a.val
  decode j := .mk <$> decode j

def Payload.cases : List (Case Payload) :=
  [.data "Float" .float, .data "Int" .int, .data "Bool" .bool, .data "Vec2" .vec2, .data "Vec3" .vec3,
    .data "Vec4" .vec4, .data "Color" .color, .data "Curve" .curve, .data "Text" .text, .data "Object" .asset]

instance : Coded Payload where
  encode
    | .float x => tagged "Float" (encode x)
    | .int n => tagged "Int" (encode n)
    | .bool b => tagged "Bool" (encode b)
    | .vec2 v => tagged "Vec2" (encode v)
    | .vec3 v => tagged "Vec3" (encode v)
    | .vec4 v => tagged "Vec4" (encode v)
    | .color c => tagged "Color" (encode c)
    | .curve c => tagged "Curve" (encode c)
    | .text s => tagged "Text" (encode s)
    | .asset a => tagged "Object" (encode a)
  decode := Case.decode Payload.cases

/-- The entries of a table; of several under one name the last counts. -/
def Blackboard.decodeEntries (b : Blackboard) : List (String × Json.Input) → Except Fault Blackboard
  | [] => .ok b
  | (key, j) :: ms => do decodeEntries (b.set key (← decode j)) ms

/-- The entries alone, without the record around them. -/
instance : Coded (List (String × Payload)) where
  encode entries := .object (entries.map fun e => (e.1, encode e.2))
  decode
    | .object ms => (·.entries) <$> Blackboard.decodeEntries {} ms
    | _ => .error .wrongKind

def Blackboard.fields : Fields Blackboard Blackboard :=
  Fields.start Blackboard Blackboard.mk |>.required "values" (·.entries)

instance : Coded Blackboard := Blackboard.fields.coded

end Danmaku
