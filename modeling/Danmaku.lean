import Danmaku.Main
import Danmaku.Proofs.Nesting
import Danmaku.Proofs.Ending
import Danmaku.Proofs.Rerolls
import Danmaku.Proofs.SoundResolution
import Danmaku.Proofs.SharedValues
import Danmaku.Proofs.Unrolling
import Danmaku.Proofs.Restarts
import Danmaku.Proofs.Census
import Danmaku.Proofs.Commuting
import Danmaku.Proofs.ProgramText
import Danmaku.Proofs.Condensing
import Danmaku.Proofs.Footprint
import Danmaku.Proofs.OnceDrawn
import Danmaku.Proofs.ShotNumbers
import Danmaku.Proofs.Unselected
import Danmaku.Proofs.Exits
import Danmaku.Proofs.Reloading
import Danmaku.Proofs.RunOnce
import Danmaku.Proofs.DisjointSelections
import Danmaku.Proofs.ClosedValues
import Danmaku.Proofs.FreshDraws
import Danmaku.Proofs.BlendEnds
import Danmaku.Proofs.IntegerBlend
import Danmaku.Proofs.BlendPick
import Danmaku.Proofs.LoopEnds
import Danmaku.Proofs.SharedKeys
import Danmaku.Proofs.FiredShots
import Danmaku.Proofs.ExactDoubles
import Danmaku.Proofs.SeededValues
import Danmaku.Proofs.SharedApart
import Danmaku.Proofs.OneEffect
import Danmaku.Proofs.Laps
import Danmaku.Proofs.Segments
import Danmaku.Proofs.CurveKeys
import Danmaku.Proofs.StraightCurves
import Danmaku.Proofs.HeldStops
import Danmaku.Proofs.Selected
import Danmaku.Proofs.Ranks
import Danmaku.Proofs.Spacing
import Danmaku.Proofs.FullTurns
import Danmaku.Proofs.Scaling
import Danmaku.Proofs.NumeralValues
import Danmaku.Proofs.SettingsText
import Danmaku.Proofs.SingleQuotients
import Danmaku.Proofs.Normalized
import Danmaku.Proofs.NumberTrees
import Danmaku.Proofs.AudibleCues
import Danmaku.Proofs.Stamps
import Danmaku.Proofs.Counters
import Danmaku.Proofs.FullPeriod
import Danmaku.Proofs.Unrounded
