import Danmaku.Entries
import Danmaku.Tree.Resolve

/-! The draws that a running pattern keeps. Every instruction has up to three channels of values; a
channel's last value is used again until its parameter asks for a new draw. Draws that follow a loop are
marked with the stamp of the loop's iteration. -/

namespace Danmaku

/-- An open loop. -/
structure Frame where
  /-- The first instruction of the body. -/
  start : Nat := 0
  remaining : Int := 0
  finished : UInt32 := 0
  endless : Bool := false
  /-- New for each iteration of any loop. A word of 64 bits would hold it: at an iteration each nanosecond it runs
  out after more than 500 years. -/
  stamp : Nat
  /-- Whether time has passed in this iteration. -/
  waited : Bool := false
  deriving DecidableEq

inductive Channel where
  | main | duration | easing
  deriving DecidableEq

structure KeptDraw where
  value : Payload
  /-- The iteration of the governing loop, where there is one. -/
  stamp : Option Nat
  deriving DecidableEq

structure DrawCache where
  entries : List ((Nat × Channel) × KeptDraw) := []
  deriving DecidableEq

namespace DrawCache

def find? (c : DrawCache) (key : Nat × Channel) : Option KeptDraw := c.entries.lookup key

def size (c : DrawCache) : Nat := c.entries.length

/-- The frame at a depth, the first being the innermost. -/
def frameAt? (frames : List Frame) (depth : UInt32) : Option Frame := frames[depth.toNat]?

/-- Whether a channel has to be drawn again, with the open loops innermost first. -/
def needsDraw (c : DrawCache) (key : Nat × Channel) (reroll : Reroll) (frames : List Frame) : Bool :=
  match c.find? key with
  | none => true
  | some kept =>
    match reroll with
    | .always => true
    | .once => false
    | .atLoops rule =>
      match frameAt? frames rule.depth with
      | some frame => kept.stamp ≠ some frame.stamp && rule.selects frame.finished
      | none => false

/-- Keeps a value as its parameter asks. -/
def keep (c : DrawCache) (key : Nat × Channel) (reroll : Reroll) (frames : List Frame) (value : Payload) :
    DrawCache :=
  match reroll with
  | .always => c
  | .once => ⟨Entries.put key ⟨value, none⟩ c.entries⟩
  | .atLoops rule => ⟨Entries.put key ⟨value, (frameAt? frames rule.depth).map (·.stamp)⟩ c.entries⟩

/-- The kept value of a channel that needs no draw, if it reads as an `α`. -/
def reusable? (α : Type) [Blendable α] (c : DrawCache) (key : Nat × Channel) (reroll : Reroll)
    (frames : List Frame) : Option α :=
  if c.needsDraw key reroll frames then none else (c.find? key).bind fun kept => ofPayload? kept.value

end DrawCache

/-- What a draw through the cache changes. -/
structure Ledger where
  cache : DrawCache
  stage : Stage

namespace Ledger

/-- The value of a parameter at a channel, kept or drawn. -/
def draw {α : Type} [Blendable α] (key : Nat × Channel) (p : Param α) (frames : List Frame) (view : Viewpoint)
    (owner : Owner) : StateM Ledger α := fun l =>
  match l.cache.reusable? α key p.reroll frames with
  | some value => (value, l)
  | none =>
    let (value, stage) := p.draw view owner l.stage
    (value, { cache := l.cache.keep key p.reroll frames (toPayload value), stage })

end Ledger

end Danmaku
