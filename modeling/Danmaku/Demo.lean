import Danmaku.Codec.Program
import Danmaku.CueQueue
import Danmaku.Log
import Danmaku.Player.Update
import Danmaku.Settings

/-! The demo: one pattern on one emitter, played until it ends or for a minute of frames, with a log of
all that happens. Settings and pattern come from files; where a file cannot be used, the log says so and a
default takes its place. -/

namespace Danmaku

/-- A file that was asked for: its path, and its text or the reason why it could not be read. -/
structure FileText where
  path : String
  text : Except String String

namespace LoadError

def message : LoadError → String
  | notWellFormed => "not a well-formed text"
  | fault .wrongKind => "a value of another kind"
  | fault .outOfRange => "a number out of range"
  | fault (.unknownCase name) => s!"unknown case {name}"
  | fault (.missingField name) => s!"missing field {name}"
  | fault (.repeatedField name) => s!"repeated field {name}"
  | fault .extraItem => "an item too many"
  | fault .emptyTree => "parameter tree has no root node"

end LoadError

namespace Settings

/-- A whole number has no point, and there is never an exponent. -/
def stepStyle : Decimal.Style := { least := -1000, greatest := 1000, wholePoint := false, plus := [] }

/-- The settings in a file, or the default ones, and what there is to log. -/
def ofFile (file : FileText) : Settings × Array Entry :=
  match file.text with
  | .error reason =>
    ({}, #[.warn .settings s!"Could not read settings from {file.path}: {reason}, using defaults"])
  | .ok text =>
    match load Settings text with
    | .error e => ({}, #[.warn .settings s!"Invalid settings in {file.path}: {e.message}, using defaults"])
    | .ok s =>
      let step := s.step.text stepStyle
      let repaired : Array Entry :=
        if isUsableStep s.step then #[]
        else #[.warn .settings s!"frame_dt {step} is not a positive step, using default"]
      (s.sanitized, repaired.push (.info .settings s!"Loaded settings from {file.path}"))

end Settings

namespace Program

/-- The program in a file, and what there is to log. -/
def ofFile? (file : FileText) : Option Program × Array Entry :=
  match file.text with
  | .error reason => (none, #[.warn .demo s!"Could not read program {file.path}: {reason}"])
  | .ok text =>
    match load Program text with
    | .error e => (none, #[.warn .demo s!"Invalid program {file.path}: {e.message}"])
    | .ok p => (some p, #[])

/-- The defects of the numbers that decide the course and the motion of an instruction. -/
def defectsAt : Kind → List Tree.Defect
  | .wait p | .rotate p | .setSpeed p => p.tree.defects
  | .beginLoop p _ => p.tree.defects
  | .shoot shot => shot.count.tree.defects
  | _ => []

/-- The defects of a program with the positions of their instructions. -/
def defects (p : Program) : List (Nat × Tree.Defect) :=
  p.instructions.zipIdx.flatMap fun (i, k) => (defectsAt i.kind).map (k, ·)

/-- Three fans of five bullets, wider the harder the game is, with the emitter turning in between. -/
def demo : Program where
  id := 1
  instructions :=
    let shot : Shot := { Shot.ofCount 10 5 ⟨1⟩ with
      modifiers := [
        .spread .heading { tree := .between 30 90 (.global "difficulty"), operation := 1 },
        .translateLocal (.fixed ⟨0, 0.5⟩)] }
    let turn : Param Single := { tree := .between (-15) 15 .random, operation := 2 }
    [{ kind := .playAudio (.fixed ⟨7⟩) },
      .beginLoop 3,
      .shoot shot,
      .spreadOver { kind := .rotate turn } 0.25 .easeInOut,
      .wait 0.5,
      .endLoop]

end Program

/-- A demo under way. -/
structure Demo where
  player : Player
  swarm : Swarm
  cues : CueQueue
  frames : Nat := 0
  log : Array Entry := #[]

namespace Demo

def maxFrames : Nat := 3600

def globals : Blackboard := Blackboard.set {} "difficulty" (.float 0.5)

/-- What is logged of an effect when it happens. -/
def entry? : Effect → Option Entry
  | .apply unit mutation => some (.info .demo s!"unit {unit.val}: {inspect mutation}")
  | .schedule unit mutation duration _ =>
    some (.info .demo s!"unit {unit.val}: {inspect mutation} over {duration.fixedText 2}s")
  | .toggle unit module on => some (.info .demo s!"unit {unit.val}: {inspect module} enabled = {on}")
  | .kill unit => some (.info .demo s!"unit {unit.val} killed")
  | .playVfx unit vfx => some (.info .demo s!"unit {unit.val}: vfx {vfx.val} on")
  | .stopVfx unit vfx => some (.info .demo s!"unit {unit.val}: vfx {vfx.val} off")
  | .control unit recipient command =>
    some (.info .demo s!"unit {unit.val}: {inspect command} {inspect recipient}")
  | .shoot .. | .playAudio _ => none

def eventEntry? : Event → Option Entry
  | .effect e => entry? e
  | .notice n => some (.ofNotice n)

def note (d : Demo) (message : String) : Demo := { d with log := d.log.push (.info .demo message) }

/-- Spawns a volley that was fired in this frame. -/
def spawn (d : Demo) (volley : Volley) (muzzle : Muzzle) : Demo :=
  let (ids, swarm) := d.swarm.spawnVolley volley muzzle
  let headings := ", ".intercalate (volley.spawns.map fun s => s.heading.fixedText 1)
  ({ d with swarm } : Demo).note
    (s!"frame {d.frames}: shot {volley.shot} #{muzzle.shotIndex} " ++
      s!"spawned {ids.length} units, headings [{headings}]")

def queue (cues : CueQueue) : Event → CueQueue
  | .effect (.playAudio cue) => cues.play cue
  | _ => cues

def fire (d : Demo) : Event → Demo
  | .effect (.shoot volley muzzle) => d.spawn volley muzzle
  | _ => d

/-- Plays one frame: an update, then the shots and the sounds that came out of it. -/
def step (d : Demo) (dt : Single) : Demo :=
  let t := d.player.update dt globals d.swarm
  let (cues, queue) := (t.events.foldl queue d.cues).drain
  let d : Demo := { d with
    player := t.player, swarm := t.swarm.advance dt, cues := queue
    log := d.log ++ t.events.filterMap eventEntry? }
  let d := t.events.foldl fire d
  let d := cues.foldl (fun d cue =>
    d.note s!"frame {d.frames}: audio cue {cue.asset.val} at volume {cue.volume.fixedText 2}") d
  let d := if t.report.repaired = 0 then d
    else d.note s!"frame {d.frames}: closed {t.report.repaired} unterminated loops"
  { d with frames := d.frames + 1 }

/-- Plays at most so many frames. -/
def play (dt : Single) : Nat → Demo → Demo
  | 0, d => d
  | n + 1, d => if d.player.status = .playing then play dt n (d.step dt) else d

/-- The log of a demo with the settings and the program of two files, each of which can be left out. -/
def run (settings program : Option FileText) : Array Entry :=
  let (settings, settingsLog) := (settings.map Settings.ofFile).getD ({}, #[])
  let (program, programLog) := (program.map Program.ofFile?).getD (none, #[])
  let program := program.getD .demo
  let (emitter, swarm) := (Swarm.ofSeed settings.seed).spawnRoot { pattern := program.id }
  let d : Demo := {
    player := .ofProgram program emitter 0, swarm, cues := .ofVolumes settings.volumes
    log := settingsLog ++ programLog }
  let d := d.note
    s!"Barrage starting: pattern {program.id} ({program.length} instructions), seed {settings.seed}"
  let d := if settings.logDefects then program.defects.foldl (fun d (k, defect) =>
    d.note s!"instruction {k}: {inspect defect} will resolve to a default value") d else d
  let d := d.play settings.step maxFrames
  let d := d.note
    (s!"Pattern {inspect d.player.status} after {d.frames} frames: " ++
      s!"{d.player.shots} shots, {d.swarm.size} live units")
  d.log

end Demo

end Danmaku
