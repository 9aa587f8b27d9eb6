import Danmaku.Codec.Text
import Danmaku.CueQueue

/-! Settings of a run, as a file holds them. Everything in the file can be left out, and what is not
usable in a file is replaced when it is read. -/

namespace Danmaku

/-- A sixtieth of a second. -/
def defaultStep : Single := 1 / 60

structure Settings where
  seed : UInt64 := 0x5eed
  /-- The time between two updates, in seconds. -/
  step : Single := defaultStep
  volumes : Volumes := {}
  /-- Whether the defects of a program are logged before it runs. -/
  logDefects : Bool := false
  deriving DecidableEq

def Volumes.fields : Fields Volumes Volumes :=
  Fields.start Volumes Volumes.mk |>.optional "master_volume" (·.master) 0.8
    |>.optional "sfx_volume" (·.effects) 1 |>.optional "muted" (·.muted) false

instance : Coded Volumes := Volumes.fields.coded

namespace Settings

def fields : Fields Settings Settings :=
  Fields.start Settings Settings.mk |>.optional "seed" (·.seed) 0x5eed
    |>.optional "frame_dt" (·.step) defaultStep |>.optional "audio" (·.volumes) {}
    |>.optional "log_recoveries" (·.logDefects) false

instance : Coded Settings := fields.coded

def isUsableStep (step : Single) : Bool := step.isFinite && 0 < step

/-- With a step that is finite and positive, and volumes within `[0, 1]`. -/
def sanitized (s : Settings) : Settings :=
  { s with step := if isUsableStep s.step then s.step else defaultStep, volumes := s.volumes.bounded }

end Settings

/-- The settings in a text, sanitized. -/
def Settings.ofText (text : String) : Except LoadError Settings := sanitized <$> load Settings text

end Danmaku
