import Danmaku.Player

/-! One instruction of a running pattern. A turn is an update under way: the player, the swarm, what has
happened so far, and the effects and notices in order. Executing an instruction changes the turn and says
where to go on. -/

namespace Danmaku

/-- What happened during an update. -/
structure Report where
  executed : UInt32 := 0
  shots : UInt32 := 0
  /-- The loops that were open at the end of the list. -/
  repaired : UInt32 := 0
  /-- Whether the update ended on a yield, not on a wait. -/
  yielded : Bool := false
  deriving DecidableEq

/-- An update under way. -/
structure Turn where
  player : Player
  swarm : Swarm
  events : Array Event := #[]
  report : Report := {}

/-- Where to go after an instruction. -/
inductive Flow where
  | next
  | jump (target : Nat)
  /-- To the next, but not in this update. -/
  | suspend
  | yield
  | yieldAt (target : Nat)
  | halt
  | finish

namespace Turn

def emit (t : Turn) (e : Effect) : Turn := { t with events := t.events.push (.effect e) }

def note (t : Turn) (n : Notice) : Turn := { t with events := t.events.push (.notice n) }

def view (t : Turn) (globals : Blackboard) : Viewpoint :=
  { globals, projectile := t.player.emitter, clock := t.player.clock }

/-- Runs draws, and logs what they notice. -/
def drawing {α : Type} (t : Turn) (m : StateM Ledger α) : α × Turn :=
  let r := m { cache := t.player.cache, stage := { swarm := t.swarm } }
  (r.1, { t with
    player := { t.player with cache := r.2.cache }
    swarm := r.2.stage.swarm
    events := t.events ++ r.2.stage.notices.map .notice })

/-- The value of a parameter of the instruction at the pointer. -/
def value {α : Type} [Blendable α] (t : Turn) (globals : Blackboard) (p : Param α) (channel : Channel) :
    α × Turn :=
  t.drawing (Ledger.draw (t.player.pointer, channel) p t.player.frames (t.view globals) .pattern)

def mutation (t : Turn) (globals : Blackboard) (edit : Edit Param) : Mutation × Turn :=
  t.drawing (edit.resolve fun p =>
    Ledger.draw (t.player.pointer, .main) p t.player.frames (t.view globals) .pattern)

/-- Applies an edit, at once or over time. -/
def edit (t : Turn) (globals : Blackboard) (edit : Edit Param) (timing : Timing) : Turn :=
  let m := t.mutation globals edit
  match timing with
  | .progressive duration easing =>
    if m.1.isGradual then
      let d := m.2.value globals duration .duration
      let e := d.2.value globals easing .easing
      e.2.emit (.schedule t.player.emitter m.1 (d.1.raisedTo 0) e.1)
    else m.2.emit (.apply t.player.emitter m.1)
  | .instant => m.2.emit (.apply t.player.emitter m.1)

/-- Fires a shot. Its draws are not kept. -/
def shoot (t : Turn) (globals : Blackboard) (shot : Shot) : Turn :=
  let v := t.drawing fun l =>
    let (volley, stage) := shot.draw (t.view globals) l.stage
    (volley, { l with stage })
  let muzzle : Muzzle := {
    emitter := t.player.emitter, pattern := t.player.program.id, slot := t.player.slot
    shotIndex := t.player.shots, shotTime := t.player.time }
  let t := v.2.emit (.shoot v.1 muzzle)
  { t with
    player := { t.player with shots := t.player.shots + 1 }
    report := { t.report with shots := t.report.shots + 1 } }

def setCustom (t : Turn) (name : String) (value : Single) : Turn :=
  { t with swarm := t.swarm.modify t.player.emitter fun p =>
      { p with custom := p.custom.set name (.float value) } }

/-- Adds to a number of the emitter; anything else under the name stays. -/
def addCustom (t : Turn) (name : String) (delta : Single) : Turn :=
  match t.swarm.find? t.player.emitter with
  | none => t
  | some p =>
    match p.custom.add? name delta with
    | some (_, custom) => { t with swarm := t.swarm.modify t.player.emitter fun p => { p with custom } }
    | none => t.note (.notANumber name)

/-- Waits for a time that is not negative. Only a wait that takes time marks the open loops. -/
def wait (t : Turn) (globals : Blackboard) (seconds : Param Single) : Flow × Turn :=
  let v := t.value globals seconds .main
  let time := v.1.raisedTo 0
  let player := { v.2.player with wait := time }
  if 0 < time then
    (.suspend, { v.2 with player := { player with frames := player.frames.map ({ · with waited := true }) } })
  else (.next, { v.2 with player })

/-- Opens a loop, or passes it by where it has no iteration. The count of an endless loop is drawn too. -/
def beginLoop (t : Turn) (globals : Blackboard) (iterations : Param Int32) (endless : Bool) : Flow × Turn :=
  let v := t.value globals iterations .main
  let count := v.1.toInt
  let player := v.2.player
  if !endless ∧ count ≤ 0 then (.jump (t.player.program.afterLoop t.player.pointer), v.2)
  else
    let stamp := player.lastStamp + 1
    let frame : Frame := { start := player.pointer + 1, remaining := count, endless, stamp }
    (.next, { v.2 with player := { player with frames := frame :: player.frames, lastStamp := stamp } })

/-- Begins another iteration of the innermost loop. -/
def again (t : Turn) (frame : Frame) (frames : List Frame) (remaining : Int) : Turn :=
  let stamp := t.player.lastStamp + 1
  let frame := { frame with remaining, finished := frame.finished + 1, waited := false, stamp }
  { t with player := { t.player with frames := frame :: frames, lastStamp := stamp } }

/-- Closes the innermost loop after its last iteration, and goes back to its start after any other. -/
def endLoop (t : Turn) : Flow × Turn :=
  match t.player.frames with
  | [] => (.next, t.note (.strayLoopEnd t.player.program.id))
  | frame :: frames =>
    if frame.endless then
      (if frame.waited then .jump frame.start else .yieldAt frame.start, t.again frame frames frame.remaining)
    else if frame.remaining ≤ 1 then (.next, { t with player := { t.player with frames } })
    else (.jump frame.start, t.again frame frames (frame.remaining - 1))

/-- A command of a pattern to itself. -/
def commandSelf (t : Turn) : Command → Flow × Turn
  | .play => (.next, t)
  | .pause => (.yield, { t with player := { t.player with status := .paused } })
  | .stop => (.halt, { t with player := t.player.stop })
  | .reboot =>
    (.halt, ({ t with player := t.player.reboot } : Turn).note
        (.rebooted t.player.program.id t.player.emitter))

/-- A command to a pattern of the emitter, which can be the pattern itself. -/
def command (t : Turn) (command : Command) : Recipient → Flow × Turn
  | .self => t.commandSelf command
  | recipient => (.next, t.emit (.control t.player.emitter recipient command))

/-- Makes the edit of a kind that makes one; any other kind does nothing here. -/
def mutate (t : Turn) (globals : Blackboard) (kind : Kind) (timing : Timing) : Turn :=
  match kind.edit? with
  | some edit => t.edit globals edit timing
  | none => t

def execute (t : Turn) (globals : Blackboard) (i : Instruction) : Flow × Turn :=
  match i.kind with
  | .wait seconds => t.wait globals seconds
  | .shoot shot => (.next, t.shoot globals shot)
  | .beginLoop iterations endless => t.beginLoop globals iterations endless
  | .endLoop => t.endLoop
  | .playAudio cue =>
    let v := t.value globals cue .main
    (.next, v.2.emit (.playAudio v.1))
  | .playVfx vfx =>
    let v := t.value globals vfx .main
    (.next, v.2.emit (.playVfx t.player.emitter v.1))
  | .stopVfx vfx =>
    let v := t.value globals vfx .main
    (.next, v.2.emit (.stopVfx t.player.emitter v.1))
  | .die => (.finish, t.emit (.kill t.player.emitter))
  | .setCustom name value =>
    let v := t.value globals value .main
    (.next, v.2.setCustom name v.1)
  | .addCustom name delta =>
    let v := t.value globals delta .main
    (.next, v.2.addCustom name v.1)
  | kind =>
    match kind.command? with
    | some (command, recipient) => t.command command recipient
    | none =>
      match kind.toggle? with
      | some (module, on) => (.next, t.emit (.toggle t.player.emitter module on))
      | none => (.next, t.mutate globals kind i.timing)

def moveTo (t : Turn) (target : Nat) : Turn := { t with player := { t.player with pointer := target } }

def advance (t : Turn) : Turn := t.moveTo (t.player.pointer + 1)

def count (t : Turn) : Turn :=
  let n := t.report.executed
  { t with report := { t.report with executed := if n + 1 = 0 then n else n + 1 } }

def setStatus (t : Turn) (status : Status) : Turn := { t with player := { t.player with status } }

def markYield (t : Turn) : Turn := { t with report := { t.report with yielded := true } }

/-- Closes the innermost loop at the end of the list. -/
def repair (t : Turn) (frames : List Frame) : Turn :=
  let t := t.note (.unterminatedLoop t.player.program.id)
  { t with player := { t.player with frames }, report := { t.report with repaired := t.report.repaired + 1 } }

end Turn

end Danmaku
