/-
This file holds layouts: the nodes of a diagram with their rows and positions. A layout that was
made from a program numbers its nodes by their places; one that was put together by hand may hold
any numbers, so whoever looks a number up has to allow for its absence.
-/

import ExprDiagram.Diagram.Basic
import ExprDiagram.Placement.Coordinate

namespace ExprDiagram

/-- A node with its place in the drawing. -/
structure PlacedNode (α : Type) where
  id : Nat
  label : String
  kind : NodeKind
  /-- The row, counted from the top. -/
  depth : Nat
  /-- The horizontal position. -/
  offset : α
  /-- All nodes that an edge leads to, in argument order; a node may be named more than once. -/
  children : List Nat
  /-- The children that hang from this node in the tree that the positions were computed from. -/
  below : List Nat
  deriving DecidableEq

/-- Placed nodes, one of them the root. -/
structure Layout (α : Type) where
  root : Nat
  nodes : Array (PlacedNode α)
  deriving DecidableEq

namespace Layout

variable {α : Type}

/-- The number of nodes. -/
def size (layout : Layout α) : Nat := layout.nodes.size

/-- Whether there are no nodes. -/
def isEmpty (layout : Layout α) : Bool := layout.nodes.isEmpty

/-- The node at a place. -/
def node? (layout : Layout α) (id : Nat) : Option (PlacedNode α) := layout.nodes[id]?

/-- The root node. -/
def rootNode? (layout : Layout α) : Option (PlacedNode α) := layout.node? layout.root

/-- The nodes of a label. -/
def find (layout : Layout α) (label : String) : List (PlacedNode α) :=
  layout.nodes.toList.filter (·.label == label)

/-- The number of rows. -/
def height (layout : Layout α) : Nat :=
  layout.nodes.foldl (fun height node => max height (node.depth + 1)) 0

/-- Every edge, as the number of its upper node, the number of its lower node and the argument
position. -/
def edges (layout : Layout α) : List (Nat × Nat × Nat) :=
  layout.nodes.toList.flatMap fun node =>
    node.children.zipIdx.map fun (child, position) => (node.id, child, position)

variable [Coordinate α]

/-- The positions of all nodes. -/
def offsets (layout : Layout α) : List α := layout.nodes.toList.map PlacedNode.offset

/-- The leftmost position. -/
def minOffset (layout : Layout α) : α := Coordinate.least layout.offsets

/-- The rightmost position. -/
def maxOffset (layout : Layout α) : α := Coordinate.greatest layout.offsets

/-- The distance between the leftmost and the rightmost position. -/
def width (layout : Layout α) : α :=
  if layout.isEmpty then Coordinate.zero else layout.maxOffset - layout.minOffset

end Layout

end ExprDiagram
