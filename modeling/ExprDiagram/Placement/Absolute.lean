/-
This file turns positions in nested frames into positions on the page. Each node has a frame, in
which it stands at its offset and in which the frames of the nodes below it lie; the shift of a node
is how far its frame has been moved within that of its parent. So the position of a node is its own
offset plus all shifts on the way from the root, and the offsets of its ancestors do not count.
-/

import ExprDiagram.Placement.Coordinate
import ExprDiagram.Placement.Traversal

namespace ExprDiagram

variable {α : Type} [Coordinate α]

/-- Visits the nodes of a stack, each with the origin of the frame around it, and those below them,
and enters their positions. -/
def descend? (below : Array (List Nat)) (offset shift : Array α) (limit : Nat)
    (stack : List (Nat × α)) (positions : Array α) : Option (Array α) :=
  match stack, limit with
  | [], _ => some positions
  | _ :: _, 0 => none
  | (node, outer) :: rest, limit + 1 =>
    match below[node]?, offset[node]?, shift[node]? with
    | some nodes, some offsetHere, some shiftHere =>
      let origin := outer + shiftHere
      descend? below offset shift limit ((nodes.map fun child => (child, origin)).reverse ++ rest)
        (positions.setIfInBounds node (offsetHere + origin))
    | _, _, _ => none

/-- The positions of the nodes under a root whose frame lies in a frame with the given origin; all
other nodes stand at zero. -/
def absolute? (below : Array (List Nat)) (root : Nat) (offset shift : Array α) (origin : α) :
    Option (Array α) :=
  descend? below offset shift (visitBound below) [(root, origin)]
    (Array.replicate offset.size Coordinate.zero)

end ExprDiagram
