import Danmaku.DrawCache
import Danmaku.Program

/-! A player runs a pattern program on an emitter. This module holds its state and its lifecycle; how it
goes through the instructions is in `Danmaku.Player.Update`. -/

namespace Danmaku

inductive Status where
  | playing | paused | stopped
  /-- Past the last instruction, or dead. -/
  | done
  deriving DecidableEq

structure Player where
  program : Program
  /-- The projectile that the pattern runs on. -/
  emitter : ProjectileId
  /-- The place of the pattern among those of its emitter. -/
  slot : UInt32
  status : Status
  pointer : Nat := 0
  /-- Open loops, innermost first. -/
  frames : List Frame := []
  /-- The time to wait before the next instruction. -/
  wait : Single := 0
  shots : UInt32 := 0
  time : Single := 0
  cache : DrawCache := {}
  /-- The last stamp given to an iteration; a restart does not give it again. It grows by one with each iteration, so
  a word of 64 bits would hold it for as long as a pattern can run. -/
  lastStamp : Nat := 0

namespace Player

/-- The status of a pattern at its start: one without instructions is done. -/
def startStatus (program : Program) : Status := if program.isEmpty then .done else .playing

def ofProgram (program : Program) (emitter : ProjectileId) (slot : UInt32) : Player :=
  { program, emitter, slot, status := startStatus program }

def clock (p : Player) : PatternClock := ⟨p.slot, p.shots, p.time⟩

/-- Back to the first instruction, with nothing kept. -/
def reset (p : Player) : Player :=
  { p with pointer := 0, frames := [], wait := 0, shots := 0, time := 0, cache := {} }

def stop (p : Player) : Player := { p.reset with status := .stopped }

def reboot (p : Player) : Player := { p.reset with status := startStatus p.program }

/-- Goes on where it paused, or starts again. -/
def play (p : Player) : Player :=
  match p.status with
  | .playing => p
  | .paused => { p with status := .playing }
  | .stopped | .done => p.reboot

def pause (p : Player) : Player := if p.status = .playing then { p with status := .paused } else p

def command (p : Player) : Command → Player
  | .play => p.play
  | .pause => p.pause
  | .stop => p.stop
  | .reboot => p.reboot

end Player

end Danmaku
