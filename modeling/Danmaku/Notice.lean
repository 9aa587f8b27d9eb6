import Danmaku.Tree

/-! What a running pattern notices: fallbacks of a parameter's resolution, and repairs of a program. A
notice changes nothing; it is there to be logged. -/

namespace Danmaku

/-- Where a resolution took a default value instead. -/
inductive Fallback where
  | danglingIndex (node : NodeIndex)
  | emptyBlend (node : NodeIndex)
  | missingReference (node : NodeIndex) (name : String)
  | unsupportedGradient (node : NodeIndex)
  | cycle (node : NodeIndex)
  | depthExceeded (node : NodeIndex)
  | visitsExceeded (node : NodeIndex)
  deriving DecidableEq

/-- The fallbacks that refuse to enter a node. -/
def Fallback.isRefusal : Fallback → Bool
  | danglingIndex _ | cycle _ | depthExceeded _ | visitsExceeded _ => true
  | _ => false

inductive Notice where
  | missingGlobal (name : String)
  | missingAncestor (facet : Facet) (distance : UInt32)
  | unsharedDraw (operation : UInt32)
  | fallback (what : Fallback)
  | tooManyBullets (shot : UInt32) (requested : Int32)
  | unterminatedLoop (pattern : UInt32)
  | strayLoopEnd (pattern : UInt32)
  | notANumber (name : String)
  | rebooted (pattern : UInt32) (projectile : ProjectileId)
  deriving DecidableEq

end Danmaku
