import Danmaku.Notice

/-! The stage of a resolution: what it reads, and what it changes. It reads the global table, the
projectile it runs on and the clock of the pattern it runs for; it changes the swarm, by draws and memo
entries alone, and adds notices. -/

namespace Danmaku

/-- Where a running pattern is. -/
structure PatternClock where
  slot : UInt32 := 0
  shots : UInt32 := 0
  time : Single := 0
  deriving DecidableEq

structure Viewpoint where
  globals : Blackboard := {}
  projectile : Option ProjectileId := none
  clock : Option PatternClock := none

structure Stage where
  swarm : Swarm
  notices : Array Notice := #[]

namespace Stage

def note (s : Stage) (n : Notice) : Stage := { s with notices := s.notices.push n }

def draw (s : Stage) : Single × Stage :=
  let (x, swarm) := s.swarm.draw
  (x, { s with swarm })

end Stage

/-- A computation on the stage. -/
abbrev Draw := StateM Stage

end Danmaku
