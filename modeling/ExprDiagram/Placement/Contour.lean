/-
This file places the nodes of a tree in their rows. Subtrees are placed from the bottom up. The
subtrees below a node keep their shapes; from left to right each is moved as far to the right as is
needed to leave the least separation to those before it in every row they share, and the node then
stands over the mean of its children.

How far a subtree has to be moved is read off contours. The left contour of a subtree holds, row by
row, its leftmost position, the right contour its rightmost. A contour is followed from a node to
its first or last child; below a node without children it goes on along a thread, which leads to the
next row of a neighbouring subtree and carries the distance between the two frames. A thread is set
when two subtrees of unequal height are put side by side, at the lower end of the shorter contour.
-/

import ExprDiagram.Placement.Absolute

namespace ExprDiagram

variable {α : Type} [Coordinate α]

/-! ### Contours -/

/-- The distance that neighbours in a row keep. -/
def separation : α := Coordinate.one

/-- Raises the entries of a contour to those of a contour that is not longer. -/
def raise : List α → List α → List α
  | entry :: rest, other :: others => Coordinate.larger entry other :: raise rest others
  | entries, _ => entries

/-- The contour of two subtrees: the larger entry in each row they share, and the entries of the
longer one in the rows below. -/
def maxContour (first second : List α) : List α :=
  if first.length ≤ second.length then raise second first else raise first second

/-- How far a subtree with the given left contour has to be moved to clear the given right contour.
It is never moved to the left. -/
def gap (right left : List α) : α :=
  (right.zip left).foldl (fun largest (r, l) => Coordinate.larger largest (separation + r - l))
    Coordinate.zero

/-! ### Frames -/

/-- The side on which a contour is followed. -/
inductive Side where
  | left
  | right
  deriving DecidableEq

/-- The child on the given side. -/
def Side.outermost : Side → List Nat → Option Nat
  | left, nodes => nodes.head?
  | right, nodes => nodes.getLast?

/-- The frames of a tree's nodes: where each node stands in its own frame, how far the frame has
been moved in that of its parent, and the thread that leads on from the node. -/
structure Frames (α : Type) where
  offset : Array α
  shift : Array α
  /-- The node that the thread leads to and the distance to its frame. -/
  thread : Array (Option (Nat × α))

namespace Frames

/-- The frames before any node is placed. -/
def initial (size : Nat) : Frames α :=
  ⟨Array.replicate size Coordinate.zero, Array.replicate size Coordinate.zero,
    Array.replicate size none⟩

/-- The next node of a contour and the distance to its frame; the inner value is missing at the end
of the contour, the outer one when a number lies outside the lists. -/
def next? (below : Array (List Nat)) (frames : Frames α) (side : Side) (node : Nat) :
    Option (Option (Nat × α)) := do
  match ← frames.thread[node]? with
  | some link => return some link
  | none =>
    match side.outermost (← below[node]?) with
    | none => return none
    | some child => return some (child, ← frames.shift[child]?)

/-- The entries of a contour after a node whose frame lies at the given distance. -/
def follow? (below : Array (List Nat)) (frames : Frames α) (side : Side) (limit : Nat)
    (node : Nat) (distance : α) : Option (List α) :=
  match limit with
  | 0 => none
  | limit + 1 => do
    match ← frames.next? below side node with
    | none => return []
    | some (next, step) =>
      let distance := distance + step
      let entry := (← frames.offset[next]?) + distance
      return entry :: (← follow? below frames side limit next distance)

/-- The contour of the subtree under a node, in the frame of the node's parent. -/
def contour? (below : Array (List Nat)) (frames : Frames α) (side : Side) (node : Nat) :
    Option (List α) := do
  let distance ← frames.shift[node]?
  let entry := (← frames.offset[node]?) + distance
  return entry :: (← frames.follow? below side below.size node distance)

/-- Follows two contours at the same pace, where each node comes with the distance of its frame,
and sets a thread from the last node of the first to the next node of the second. Nothing is set
when the first contour is not the shorter one. -/
def link? (below : Array (List Nat)) (frames : Frames α) (side : Side) (limit : Nat)
    (short tall : Nat × α) : Option (Frames α) :=
  match limit with
  | 0 => none
  | limit + 1 => do
    match ← frames.next? below side short.1, ← frames.next? below side tall.1 with
    | some (nextShort, stepShort), some (nextTall, stepTall) =>
      link? below frames side limit (nextShort, short.2 + stepShort) (nextTall, tall.2 + stepTall)
    | none, some (nextTall, stepTall) =>
      let link := (nextTall, tall.2 + stepTall - short.2)
      return { frames with thread := frames.thread.setIfInBounds short.1 (some link) }
    | _, none => return frames

/-- Sets a thread at the end of the shorter of two contours on a side, so that it goes on along the
taller one. The nodes at the top of the contours lie in a common frame. -/
def setThread? (below : Array (List Nat)) (frames : Frames α) (side : Side) (short tall : Nat) :
    Option (Frames α) := do
  frames.link? below side below.size (short, ← frames.shift[short]?) (tall, ← frames.shift[tall]?)

/-! ### Placing -/

/-- Moves the subtrees of a list into their places, to the right of those before them: the first,
the previous one and those between, whose right contour, the previous one apart, is given. -/
def spread? (below : Array (List Nat)) (first : Nat) (frames : Frames α) (previous : Nat)
    (merged : List α) : List Nat → Option (Frames α)
  | [] => some frames
  | node :: rest => do
    let merged := maxContour merged (← frames.contour? below .right previous)
    let left ← frames.contour? below .left node
    let moved := (← frames.shift[node]?) + gap merged left
    let frames := { frames with shift := frames.shift.setIfInBounds node moved }
    let frames ←
      if merged.length < left.length then frames.setThread? below .left first node
      else if left.length < merged.length then frames.setThread? below .right node previous
      else some frames
    frames.spread? below first node merged rest

/-- Places the subtrees below a node next to each other, and the node over the mean of its
children. -/
def place? (below : Array (List Nat)) (frames : Frames α) (node : Nat) : Option (Frames α) := do
  let children ← below[node]?
  let frames ← match children with
    | [] => some frames
    | first :: rest => frames.spread? below first first [] rest
  let positions ← children.mapM fun child =>
    return (← frames.offset[child]?) + (← frames.shift[child]?)
  return { frames with offset := frames.offset.setIfInBounds node (Coordinate.mean positions) }

/-- The frames of the tree under a root. -/
def ofTree? (below : Array (List Nat)) (root : Nat) : Option (Frames α) := do
  (← postOrder? below root).foldlM (place? below) (initial below.size)

/-- The positions of the nodes of a tree whose root stands at zero. -/
def positions? (below : Array (List Nat)) (root : Nat) (frames : Frames α) :
    Option (Array α) := do
  let origin := -((← frames.offset[root]?) + (← frames.shift[root]?))
  absolute? below root frames.offset frames.shift origin

end Frames

/-- The positions of the nodes of the tree under a root, which stands at zero itself. Nodes outside
the tree stand at zero too. -/
def offsets? (root : Nat) (below : Array (List Nat)) : Option (Array α) := do
  (← Frames.ofTree? below root).positions? below root

end ExprDiagram
