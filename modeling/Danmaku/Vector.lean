import Danmaku.Scalar

/-! Vectors of two, three and four components. The plane has `y` forward and `x` to the right. -/

namespace Danmaku

structure Vec2 (α : Type) where
  x : α
  y : α
  deriving DecidableEq

structure Vec3 where
  x : Single
  y : Single
  z : Single
  deriving DecidableEq

structure Vec4 where
  x : Single
  y : Single
  z : Single
  w : Single
  deriving DecidableEq

namespace Vec2

variable {α : Type} [Scalar α]

instance : Add (Vec2 α) := ⟨fun p q => ⟨p.x + q.x, p.y + q.y⟩⟩

instance : Sub (Vec2 α) := ⟨fun p q => ⟨p.x - q.x, p.y - q.y⟩⟩

/-- Componentwise. -/
instance : Mul (Vec2 α) := ⟨fun p q => ⟨p.x * q.x, p.y * q.y⟩⟩

def zero : Vec2 α := ⟨0, 0⟩

def scaled (p : Vec2 α) (k : α) : Vec2 α := ⟨p.x * k, p.y * k⟩

/-- By a quarter turn. -/
def turnedLeft (p : Vec2 α) : Vec2 α := ⟨-p.y, p.x⟩

def lerp (p q : Vec2 Single) (t : Single) : Vec2 Single := ⟨p.x.lerp q.x t, p.y.lerp q.y t⟩

def length (p : Vec2 Single) : Single := (p.x * p.x + p.y * p.y).sqrt

end Vec2

def Vec3.lerp (p q : Vec3) (t : Single) : Vec3 := ⟨p.x.lerp q.x t, p.y.lerp q.y t, p.z.lerp q.z t⟩

def Vec4.lerp (p q : Vec4) (t : Single) : Vec4 :=
  ⟨p.x.lerp q.x t, p.y.lerp q.y t, p.z.lerp q.z t, p.w.lerp q.w t⟩

end Danmaku
