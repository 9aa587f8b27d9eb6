import Danmaku.Single

/-! Ways to fold a number outside of `[0, 1]` back into it. -/

namespace Danmaku

inductive Fold where
  | clamp | loop | pingPong
  deriving DecidableEq

namespace Fold

/-- NaN and the infinities fold to `0`. -/
def apply (fold : Fold) (t : Single) : Single :=
  if !t.isFinite then 0 else
    match fold with
    | clamp => t.clamp 0 1
    | loop => t.modulo 1
    | pingPong =>
      let r := t.modulo 2
      if 1 < r then 2 - r else r

end Fold

end Danmaku
