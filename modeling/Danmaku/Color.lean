import Danmaku.Vector

/-! Colors with linear channels and opacity. -/

namespace Danmaku

structure Color where
  r : Single
  g : Single
  b : Single
  a : Single
  deriving DecidableEq

namespace Color

def rgb (r g b : Single) : Color := ⟨r, g, b, 1⟩

def white : Color := rgb 1 1 1

def black : Color := rgb 0 0 0

def clear : Color := ⟨0, 0, 0, 0⟩

instance : Inhabited Color := ⟨white⟩

def withAlpha (c : Color) (a : Single) : Color := { c with a }

def toVec4 (c : Color) : Vec4 := ⟨c.r, c.g, c.b, c.a⟩

def ofVec4 (v : Vec4) : Color := ⟨v.x, v.y, v.z, v.w⟩

def lerp (c d : Color) (t : Single) : Color :=
  ⟨c.r.lerp d.r t, c.g.lerp d.g t, c.b.lerp d.b t, c.a.lerp d.a t⟩

end Color

end Danmaku
