import Danmaku.Tree

/-! Defects of a tree: blends of nothing, links to nowhere, and cycles. Cycles are found by a
depth-first walk that starts from every node not met before. The walk keeps the nodes that it has not
met, and its path with the links that are left at each node; a link back into the path closes a cycle. -/

namespace Danmaku.Tree

inductive Defect where
  | emptyBlend (node : NodeIndex)
  | danglingChild (node child : NodeIndex)
  | selfReference (node : NodeIndex)
  /-- The child leads back to the node through others. -/
  | cycle (node child : NodeIndex)
  deriving DecidableEq

variable {α : Type}

def linkDefect? (t : Tree α) (node child : NodeIndex) : Option Defect :=
  if child = node then some (.selfReference node)
  else if (t.node? child).isNone then some (.danglingChild node child)
  else none

/-- What is wrong at one node: first the node itself, then its links in order. -/
def localDefects (t : Tree α) (i : NodeIndex) : List Defect :=
  match t.node? i with
  | none => []
  | some node =>
    (if node.mode = .blend [] then [.emptyBlend i] else []) ++ node.mode.links.filterMap (t.linkDefect? i)

/-- The links that are left along a path, and one for each node of it. -/
def pathWork : List (NodeIndex × List NodeIndex) → Nat
  | [] => 0
  | (_, links) :: path => links.length + 1 + pathWork path

/-- Goes on from a path, innermost node first, with the nodes not met yet in order. -/
def walk (t : Tree α) (fresh : List NodeIndex) (path : List (NodeIndex × List NodeIndex)) : List Defect :=
  match path with
  | [] =>
    match fresh with
    | [] => []
    | start :: fresh => walk t fresh [(start, t.links start)]
  | (_, []) :: path => walk t fresh path
  | (node, child :: links) :: path =>
    let rest := (node, links) :: path
    if child = node ∨ (t.node? child).isNone then walk t fresh rest
    else if child ∈ fresh then walk t (fresh.erase child) ((child, t.links child) :: rest)
    else if rest.any (·.1 = child) then .cycle node child :: walk t fresh rest
    else walk t fresh rest
termination_by (fresh.length, pathWork path)
decreasing_by
  · exact .left _ _ (by simp)
  · exact .right _ (by simp [pathWork])
  · exact .right _ (by simp [pathWork])
  · rename_i h
    have := List.length_pos_of_mem h
    exact .left _ _ (by rw [List.length_erase_of_mem h]; omega)
  · exact .right _ (by simp [pathWork])
  · exact .right _ (by simp [pathWork])

/-- All defects: those at the nodes in order, then the cycles. -/
def defects (t : Tree α) : List Defect := t.indices.flatMap t.localDefects ++ t.walk t.indices []

end Danmaku.Tree
