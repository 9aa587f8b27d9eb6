import Danmaku.Inspect

/-! Log entries: what happened, how much it matters, and the topic it belongs to. -/

namespace Danmaku

inductive Level where
  | error | warn | info | debug | trace
  deriving DecidableEq

namespace Level

/-- From the most to the least severe. -/
def rank : Level → Nat
  | error => 1
  | warn => 2
  | info => 3
  | debug => 4
  | trace => 5

instance : Named Level where
  all := [.error, .warn, .info, .debug, .trace]
  name
    | .error => "ERROR"
    | .warn => "WARN"
    | .info => "INFO"
    | .debug => "DEBUG"
    | .trace => "TRACE"

end Level

/-- What an entry is about. -/
inductive Topic where
  | demo | settings | resolution | selectors | playing | shots | draws
  deriving DecidableEq

/-- The name by which the entries of a topic are selected, below the name of the program. -/
def Topic.path : Topic → String
  | demo => ""
  | settings => "::settings"
  | resolution => "::param::resolve"
  | selectors => "::param::interpolation"
  | playing => "::sim::tick"
  | shots => "::sim::shot"
  | draws => "::sim::random"

structure Entry where
  level : Level
  topic : Topic
  message : String
  deriving DecidableEq

namespace Entry

def warn (topic : Topic) (message : String) : Entry := ⟨.warn, topic, message⟩

def info (topic : Topic) (message : String) : Entry := ⟨.info, topic, message⟩

def debug (topic : Topic) (message : String) : Entry := ⟨.debug, topic, message⟩

def ofNotice : Notice → Entry
  | .missingGlobal name =>
    debug .selectors s!"global parameter '{name}' missing, interpolation factor is 0"
  | .missingAncestor facet distance =>
    debug .selectors s!"hierarchy factor {inspect facet} has no unit at distance {distance}, factor is 0"
  | .unsharedDraw operation =>
    debug .draws s!"shared random (op {operation}) has no hierarchy to walk, drawing a fresh value"
  | .fallback what => debug .resolution s!"parameter resolution recovered: {inspect what}"
  | .tooManyBullets shot requested =>
    warn .shots s!"shot {shot} asked for {requested} bullets, capped to {Shot.maxBullets}"
  | .unterminatedLoop pattern => debug .playing s!"pattern {pattern}: closing unterminated loop"
  | .strayLoopEnd pattern => debug .playing s!"pattern {pattern}: EndLoop without an open loop"
  | .notANumber name => debug .playing s!"custom parameter '{name}' is not a scalar, add ignored"
  | .rebooted pattern projectile =>
    info .playing s!"pattern {pattern} rebooted on unit {inspect projectile}"

end Entry

end Danmaku
