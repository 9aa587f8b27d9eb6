import Danmaku.Reroll
import Danmaku.Selector

/-! Parameters. A parameter is a tree of nodes in one array, addressed from `1`; the root is node `1`.
Links are not checked when a tree is made, so they can dangle or form cycles: `Tree.defects` finds such
links, and resolution works around them. -/

namespace Danmaku

structure NodeIndex where
  val : UInt32
  deriving DecidableEq

namespace NodeIndex

def root : NodeIndex := ⟨1⟩

/-- The index of the node at a position from `0`. -/
def ofPosition (i : Nat) : NodeIndex := ⟨.ofNat (i + 1)⟩

end NodeIndex

/-- A named parameter held elsewhere: in the global table, or as a custom value of an ancestor. -/
inductive Reference.Holder where
  | global | lineage
  deriving DecidableEq

structure Reference where
  holder : Reference.Holder
  /-- Of the ancestor. -/
  distance : UInt32 := 0
  name : String
  deriving DecidableEq

/-- How a node gets its value. -/
inductive Node.Mode where
  | fixed
  | between (source target : NodeIndex)
  | blend (children : List NodeIndex)
  | gradient (gradient : Gradient)
  | reference (reference : Reference)
  deriving DecidableEq

/-- The nodes that a mode resolves through, in order. -/
def Node.Mode.links : Node.Mode → List NodeIndex
  | between source target => [source, target]
  | blend children => children
  | _ => []

structure Node (α : Type) where
  mode : Node.Mode := .fixed
  default : α
  /-- The share of the node in a blend. -/
  weight : Single := 1
  selector : Selector := .random
  deriving DecidableEq

structure Tree (α : Type) where
  nodes : Array (Node α)
  nonempty : 0 < nodes.size
  deriving DecidableEq

namespace Tree

variable {α : Type}

def ofRoot (root : Node α) : Tree α := ⟨#[root], Nat.one_pos⟩

def size (t : Tree α) : Nat := t.nodes.size

def root (t : Tree α) : Node α :=
  have := t.nonempty
  t.nodes[0]

def node? (t : Tree α) (i : NodeIndex) : Option (Node α) :=
  if i.val = 0 then none else t.nodes[i.val.toNat - 1]?

/-- Adds a node and gives its index. -/
def push (t : Tree α) (node : Node α) : NodeIndex × Tree α :=
  (.ofPosition t.size, ⟨t.nodes.push node, by simp⟩)

/-- Changes a node, if it exists. -/
def modify (t : Tree α) (i : NodeIndex) (f : Node α → Node α) : Tree α :=
  if i.val = 0 then t else ⟨t.nodes.modify (i.val.toNat - 1) f, by simpa using t.nonempty⟩

def indices (t : Tree α) : List NodeIndex := (List.range t.size).map .ofPosition

/-- The links of a node; none where there is no node. -/
def links (t : Tree α) (i : NodeIndex) : List NodeIndex :=
  match t.node? i with
  | some node => node.mode.links
  | none => []

def fixed (value : α) : Tree α := .ofRoot { default := value }

/-- A root between two fixed children. -/
def between (source target : α) (selector : Selector) : Tree α where
  nodes := #[{ mode := .between ⟨2⟩ ⟨3⟩, default := source, selector }, { default := source },
    { default := target }]
  nonempty := by simp

/-- A root that blends fixed children by their weights. -/
def blend (value : α) (children : List (α × Single)) (selector : Selector) : Tree α where
  nodes :=
    #[{ mode := .blend ((List.range children.length).map fun i => .ofPosition (i + 1))
        default := value, selector }] ++
      (children.map fun c => { default := c.1, weight := c.2 }).toArray
  nonempty := by simp

def reference (value : α) (reference : Reference) : Tree α :=
  .ofRoot { mode := .reference reference, default := value }

end Tree

/-- An authored parameter: its tree, the id that seeds its shared draws, and when it is drawn again. -/
structure Param (α : Type) where
  tree : Tree α
  operation : UInt32 := 0
  reroll : Reroll := .always
  deriving DecidableEq

namespace Param

variable {α : Type}

def fixed (value : α) : Param α := { tree := .fixed value }

def default (p : Param α) : α := p.tree.root.default

end Param

end Danmaku
