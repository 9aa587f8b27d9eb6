import Danmaku.Single.Trigonometry
import Danmaku.Vector

/-! Headings in degrees: `0` points forward, along `+y`, and positive angles turn counter-clockwise. -/

namespace Danmaku

namespace Heading

/-- Into `[0, 360)`; a modulo that rounds up to `360` is `0`. -/
def normalize (degrees : Single) : Single :=
  let r := degrees.modulo 360
  if 360 ≤ r then 0 else r

def right (degrees : Single) : Vec2 Single :=
  let r := degrees * Single.radiansPerDegree
  ⟨r.cosine, r.sine⟩

/-- A quarter turn on from the right. -/
def forward (degrees : Single) : Vec2 Single := (right degrees).turnedLeft

def ofDirection (d : Vec2 Single) : Single := normalize (Single.angleOf (-d.x) d.y * Single.degreesPerRadian)

/-- The heading from one point to another, none where they coincide. The unsigned angle to the forward
axis is the arc cosine of the normalized dot product, and the cross product gives its side. -/
def towards? (source target : Vec2 Single) : Option Single :=
  let d := target - source
  let distance := d.length
  if distance ≤ Single.epsilon then none else
    let cosine := Single.clamp ((0 * d.x + 1 * d.y) / distance) (-1) 1
    let angle := cosine.arccosine * Single.degreesPerRadian
    some (if 0 * d.y - 1 * d.x < 0 then -angle else angle)

/-- The heading after a scale: a negative factor mirrors it. -/
def mirrored {α : Type} [Scalar α] (heading : α) (scale : Vec2 α) : α :=
  if scale.x < 0 then (if scale.y < 0 then heading + 180 else -heading)
  else if scale.y < 0 then 180 - heading else heading

end Heading

/-- Turns a point around another one by the angle of a sine and a cosine. -/
def Vec2.turnedAround (p pivot : Vec2 Single) (sine cosine : Single) : Vec2 Single :=
  let d := p - pivot
  pivot + ⟨d.x * cosine - d.y * sine, d.x * sine + d.y * cosine⟩

def Vec2.rotatedAround (p pivot : Vec2 Single) (degrees : Single) : Vec2 Single :=
  let r := degrees * Single.radiansPerDegree
  p.turnedAround pivot r.sine r.cosine

end Danmaku
