import Danmaku.Payload

/-! The queue of audio cues. A cue is kept with its volume if it can be heard, until the host drains the
queue into its mixer. -/

namespace Danmaku

/-- The volumes of a mixer. -/
structure Volumes where
  master : Single := 0.8
  effects : Single := 1
  muted : Bool := false
  deriving DecidableEq

namespace Volumes

/-- Both volumes into `[0, 1]`. -/
def bounded (v : Volumes) : Volumes := { v with master := v.master.clamp 0 1, effects := v.effects.clamp 0 1 }

def effective (v : Volumes) : Single := if v.muted then 0 else v.master * v.effects

end Volumes

structure Cue where
  asset : AssetId
  volume : Single
  deriving DecidableEq

structure CueQueue where
  pending : Array Cue := #[]
  volumes : Volumes := {}
  deriving DecidableEq

namespace CueQueue

def ofVolumes (v : Volumes) : CueQueue := { volumes := v.bounded }

def setMaster (q : CueQueue) (volume : Single) : CueQueue :=
  { q with volumes := { q.volumes with master := volume.clamp 0 1 } }

def setEffects (q : CueQueue) (volume : Single) : CueQueue :=
  { q with volumes := { q.volumes with effects := volume.clamp 0 1 } }

def setMuted (q : CueQueue) (muted : Bool) : CueQueue := { q with volumes := { q.volumes with muted } }

/-- Keeps a cue at the present volume, unless it is none or cannot be heard. -/
def play (q : CueQueue) (asset : AssetId) : CueQueue :=
  let volume := q.volumes.effective
  if volume ≤ 0 ∨ asset.isNone then q else { q with pending := q.pending.push ⟨asset, volume⟩ }

def drain (q : CueQueue) : Array Cue × CueQueue := (q.pending, { q with pending := #[] })

end CueQueue

end Danmaku
