import Danmaku.Selector.Draw

/-! Resolution of a tree to a value. It never fails and always ends: a link to nowhere takes the default
of the nearest node above it, and a node that cannot be used takes its own. Cycles are cut where the path
meets itself, and depth and visits are bounded, so shared children cannot make the work explode. -/

namespace Danmaku.Tree

def maxDepth : Nat := 64

def maxVisits : Nat := 4096

/-- Spreads node indices over operation ids. -/
def nodePrime : UInt32 := 2654435761

/-- A resolution under way. -/
structure Walk where
  stage : Stage
  /-- The nodes being resolved, innermost first. -/
  path : List NodeIndex := []
  /-- The nodes entered so far. -/
  visited : Array NodeIndex := #[]
  fallbacks : Array Fallback := #[]

namespace Walk

def fallBack (w : Walk) (f : Fallback) : Walk := { w with fallbacks := w.fallbacks.push f }

def enter (w : Walk) (i : NodeIndex) : Walk := { w with path := i :: w.path, visited := w.visited.push i }

def leave (w : Walk) : Walk := { w with path := w.path.tail }

end Walk

variable {α : Type}

/-- The operation id of one node, so that siblings draw independent values. -/
def nodeOperation (operation : UInt32) (i : NodeIndex) : UInt32 := operation ^^^ i.val * nodePrime

/-- The weight of a child in a blend; a link to nowhere, a negative weight and one that is not finite
count as `0`. -/
def share (t : Tree α) (child : NodeIndex) : Single :=
  match t.node? child with
  | some node =>
    let w := node.weight.raisedTo 0
    if w.isFinite then w else 0
  | none => 0

/-- The first child whose sum of shares reaches the selector. -/
def reachShare (share : NodeIndex → Single) (selector : Single) : Single → List NodeIndex → Option NodeIndex
  | _, [] => none
  | sum, child :: children =>
    if selector ≤ sum + share child then some child
    else reachShare share selector (sum + share child) children

/-- Picks by weight, by equal shares where no weight is positive. The ends of the selector pick the ends
of the children whatever their weight. -/
def pickChild (t : Tree α) (first : NodeIndex) (others : List NodeIndex) (selector : Single) : NodeIndex :=
  let last := others.getLast?.getD first
  if others.isEmpty ∨ selector ≤ 0 then first
  else if 1 ≤ selector then last
  else
    let children := first :: others
    let total := (children.map t.share).foldl (· + ·) 0
    let share child := if 0 < total then t.share child / total else 1 / .ofNat children.length
    (reachShare share selector 0 children).getD last

/-- The parameter that a reference reads, if it is there and reads as an `α`. -/
def referred? [Blendable α] (r : Reference) (view : Viewpoint) (s : Swarm) : Option α :=
  match r.holder with
  | .global => view.globals.get? α r.name
  | .lineage => do (← s.ancestor? (← view.projectile) r.distance.toNat).custom.get? α r.name

/-- Resolves a node; `above` is the default of the nearest node above. -/
def visit [Blendable α] (t : Tree α) (view : Viewpoint) (owner : Owner) (operation : UInt32) (i : NodeIndex)
    (above : α) (depth : Nat) (w : Walk) : α × Walk :=
  match t.node? i with
  | none => (above, w.fallBack (.danglingIndex i))
  | some node =>
    if i ∈ w.path then (node.default, w.fallBack (.cycle i))
    else if maxDepth < depth then (node.default, w.fallBack (.depthExceeded i))
    else if maxVisits ≤ w.visited.size then (node.default, w.fallBack (.visitsExceeded i))
    else
      let w := w.enter i
      let select (w : Walk) : Single × Walk :=
        let (x, stage) := node.selector.draw view owner (nodeOperation operation i) w.stage
        (x, { w with stage })
      let (value, w) :=
        match node.mode with
        | .fixed => (node.default, w)
        | .reference r =>
          match referred? r view w.stage.swarm with
          | some value => (value, w)
          | none => (node.default, w.fallBack (.missingReference i r.name))
        | .between source target =>
          let (selector, w) := select w
          let (x, w) := t.visit view owner operation source node.default (depth + 1) w
          let (y, w) := t.visit view owner operation target node.default (depth + 1) w
          (Blendable.blend x y selector, w)
        | .blend [] => (node.default, w.fallBack (.emptyBlend i))
        | .blend (first :: others) =>
          let (selector, w) := select w
          t.visit view owner operation (t.pickChild first others selector) node.default (depth + 1) w
        | .gradient gradient =>
          let (selector, w) := select w
          match ofGradient? gradient selector with
          | some value => (value, w)
          | none => (node.default, w.fallBack (.unsupportedGradient i))
      (value, w.leave)
termination_by maxDepth + 1 - depth

structure Resolution (α : Type) where
  value : α
  fallbacks : Array Fallback
  visited : Array NodeIndex

/-- How often a resolution came to a node, entered or refused. -/
def Resolution.calls (r : Resolution α) : Nat := r.visited.size + r.fallbacks.countP Fallback.isRefusal

/-- Resolves from a node, and notes the fallbacks when it is done. -/
def resolveFrom [Blendable α] (t : Tree α) (i : NodeIndex) (view : Viewpoint) (owner : Owner)
    (operation : UInt32) : Draw (Resolution α) := fun s =>
  let (value, w) := t.visit view owner operation i t.root.default 0 { stage := s }
  ({ value, fallbacks := w.fallbacks, visited := w.visited },
    w.fallbacks.foldl (fun s f => s.note (.fallback f)) w.stage)

end Tree

/-- The value of a parameter. -/
def Param.draw {α : Type} [Blendable α] (p : Param α) (view : Viewpoint) (owner : Owner) : Draw α := fun s =>
  let (r, s) := p.tree.resolveFrom .root view owner p.operation s
  (r.value, s)

end Danmaku
