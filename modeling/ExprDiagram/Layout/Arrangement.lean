/-
This file lays a program out. The program is drawn as a diagram; each node gets the row to which the
longest way from the root leads; a tree is selected that takes every step from one row to the next;
the nodes are placed along that tree; and they are numbered anew in the order of the tree, every
node before those below it, so that the root is node zero.
-/

import ExprDiagram.Diagram.Depth
import ExprDiagram.Diagram.OfProgram
import ExprDiagram.Diagram.Spanning
import ExprDiagram.Layout.Basic
import ExprDiagram.Placement.Contour

namespace ExprDiagram

variable {α : Type}

/-- Everything that is known of a program when it has been laid out. -/
structure Arrangement (α : Type) where
  diagram : Diagram
  children : Array (List Nat)
  depth : Array Nat
  below : Array (List Nat)
  frames : Frames α
  offset : Array α

namespace Arrangement

/-- Lays a diagram out. -/
def ofDiagram [Coordinate α] (diagram : Diagram) : Except DrawError (Arrangement α) :=
  if diagram.graph.isAcyclic then inRange do
    let children := diagram.graph.childLists
    let depth ← depths? diagram.root children
    let below ← selectBelowBy? (· + 1) diagram.root children depth
    let frames ← Frames.ofTree? below diagram.root
    let offset ← frames.positions? below diagram.root
    return ⟨diagram, children, depth, below, frames, offset⟩
  else .error .cyclicGraph

/-- The nodes under the root in the order of their new numbers. -/
def order? (arrangement : Arrangement α) : Option (List Nat) :=
  preOrder? arrangement.below arrangement.diagram.root

/-- A node of the diagram under its new number, where `order` lists the nodes by their new
numbers. -/
def placedNode? (arrangement : Arrangement α) (order : List Nat) (id node : Nat) :
    Option (PlacedNode α) := do
  let shown ← arrangement.diagram.graph.nodes[node]?
  return {
    id
    label := shown.label
    kind := shown.kind
    depth := ← arrangement.depth[node]?
    offset := ← arrangement.offset[node]?
    children := ← (← arrangement.children[node]?).mapM (order.idxOf? ·)
    below := ← (← arrangement.below[node]?).mapM (order.idxOf? ·) }

/-- The nodes under the root with their new numbers. -/
def layout? (arrangement : Arrangement α) : Option (Layout α) := do
  let order ← arrangement.order?
  let nodes ← order.zipIdx.mapM fun (node, id) => arrangement.placedNode? order id node
  return ⟨0, nodes.toArray⟩

/-- The subtrees that were moved, in the order in which they were: the node above, the node at the
top of the subtree, and the distance. The first subtree below a node is never moved. -/
def moves? (arrangement : Arrangement α) : Option (List (Nat × Nat × α)) := do
  let order ← postOrder? arrangement.below arrangement.diagram.root
  let moves ← order.mapM fun node => do
    (← arrangement.below[node]?).tail.mapM fun child =>
      return (node, child, ← arrangement.frames.shift[child]?)
  return moves.flatten

end Arrangement

/-- The layout of a program. -/
def Layout.ofProgram [Coordinate α] (program : Program) : Except DrawError (Layout α) := do
  let arrangement ← Arrangement.ofDiagram (← Diagram.ofProgram program)
  inRange arrangement.layout?

end ExprDiagram
