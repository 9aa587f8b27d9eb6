import Danmaku.Color
import Danmaku.Search
import Danmaku.Sorting

/-! Color gradients: a ramp of colors and a ramp of opacities, sampled independently. A ramp is constant
outside of its stops; between two stops it blends them or holds the earlier one. -/

namespace Danmaku

structure Stop (ν : Type) where
  time : Single
  value : ν
  deriving DecidableEq

namespace Stop

variable {ν : Type}

def notAfter (a b : Stop ν) : Bool := a.time.totalLe b.time

theorem notAfter_trans (a b c : Stop ν) (h : notAfter a b = true) (h' : notAfter b c = true) :
    notAfter a c = true :=
  Single.totalLe_trans a.time b.time c.time h h'

theorem notAfter_total (a b : Stop ν) : (notAfter a b || notAfter b a) = true :=
  Single.totalLe_total a.time b.time

end Stop

structure Ramp (ν : Type) where
  stops : List (Stop ν)
  sorted : stops.Pairwise (Stop.notAfter · ·)
  deriving DecidableEq

inductive GradientMode where
  | blend | hold
  deriving DecidableEq

namespace Ramp

variable {ν : Type}

/-- Sorts the stops by time; stops of one time stay in the given order. -/
def ofStops (stops : List (Stop ν)) : Ramp ν :=
  ⟨Sorting.sort Stop.notAfter stops,
    Sorting.pairwise_sort Stop.notAfter_trans Stop.notAfter_total stops⟩

/-- The place of the first stop after `t`, as the search finds it. -/
def reached (r : Ramp ν) (t : Single) : Nat := Search.partitionPoint (·.time ≤ t) r.stops.toArray

def between (mode : GradientMode) (mix : ν → ν → Single → ν) (a b : Stop ν) (t : Single) : ν :=
  match mode with
  | .hold => a.value
  | .blend =>
    let span := b.time - a.time
    if span ≤ 0 then b.value else mix a.value b.value ((t - a.time) / span)

/-- Takes `absent` if there are no stops. There is no value where a stop that is read is out of range. -/
def sample? (r : Ramp ν) (mode : GradientMode) (mix : ν → ν → Single → ν) (absent : ν) (t : Single) : Option ν :=
  match r.stops.head?, r.stops.getLast? with
  | some first, some last =>
    if t ≤ first.time then some first.value
    else if last.time ≤ t then some last.value
    else (Search.around? r.stops.toArray (r.reached t)).map fun (a, b) => between mode mix a b t
  | _, _ => some absent

/-- The value of a ramp, `absent` where it has none. -/
def sample (r : Ramp ν) (mode : GradientMode) (mix : ν → ν → Single → ν) (absent : ν) (t : Single) : ν :=
  (r.sample? mode mix absent t).getD absent

end Ramp

structure Gradient where
  colors : Ramp Vec3
  alphas : Ramp Single
  mode : GradientMode
  deriving DecidableEq

namespace Gradient

def ofColors (source target : Color) : Gradient where
  colors := .ofStops [⟨0, source.r, source.g, source.b⟩, ⟨1, target.r, target.g, target.b⟩]
  alphas := .ofStops [⟨0, source.a⟩, ⟨1, target.a⟩]
  mode := .blend

instance : Inhabited Gradient := ⟨ofColors .white .white⟩

/-- The time at which a gradient is sampled. -/
def clampTime (t : Single) : Single := if t.isNaN then 0 else t.clamp 0 1

/-- The color at `t` within `[0, 1]`, at `0` for NaN; a ramp without stops is white or opaque. There is no color where
one of the ramps has no value. -/
def evaluate? (g : Gradient) (t : Single) : Option Color := do
  let c ← g.colors.sample? g.mode Vec3.lerp ⟨1, 1, 1⟩ (clampTime t)
  let a ← g.alphas.sample? g.mode Single.lerp 1 (clampTime t)
  return ⟨c.x, c.y, c.z, a⟩

/-- The color of a gradient, where a ramp without a value is white or opaque too. -/
def evaluate (g : Gradient) (t : Single) : Color :=
  let c := g.colors.sample g.mode Vec3.lerp ⟨1, 1, 1⟩ (clampTime t)
  ⟨c.x, c.y, c.z, g.alphas.sample g.mode Single.lerp 1 (clampTime t)⟩

/-- A gradient that has a color evaluates to it. -/
theorem evaluate_of_evaluate? {g : Gradient} {t : Single} {c : Color} (h : g.evaluate? t = some c) :
    g.evaluate t = c := by
  simp only [evaluate?, Option.bind_eq_bind, Option.bind_eq_some_iff] at h
  obtain ⟨rgb, colors, a, alphas, same⟩ := h
  obtain rfl := Option.some.inj same
  simp only [evaluate, Ramp.sample, colors, alphas, Option.getD_some]

end Gradient

end Danmaku
