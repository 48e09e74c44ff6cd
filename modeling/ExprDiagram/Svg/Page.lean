/-
This file finds the geometry of a vector drawing. Nodes are discs of one radius. The leftmost and
the topmost disc keep the padding to the edges of the page, and the page ends at the same distance
behind the rightmost and the lowest disc. An edge leaves its upper node at the level of the lower
rim, at one of as many evenly spread slots as the node has edges, and ends at the top of the lower
disc.
-/

import ExprDiagram.Layout.Basic

namespace ExprDiagram

/-- The measures of a vector drawing. -/
structure PageStyle (α : Type) where
  /-- The width for a distance of one. -/
  columnWidth : α
  /-- The height from one row to the next. -/
  rowHeight : α
  /-- The radius of the discs. -/
  radius : α
  fontSize : α
  /-- The room around the drawing. -/
  padding : α
  deriving DecidableEq

/-- A point of the page, counted from its upper left corner. -/
structure Point (α : Type) where
  x : α
  y : α
  deriving DecidableEq

/-- An edge from the rim of its upper disc to the top of its lower one. -/
structure Curve (α : Type) where
  start : Point α
  finish : Point α
  deriving DecidableEq

/-- The disc of a node with what is written on it. -/
structure Disc (α : Type) where
  centre : Point α
  label : String
  /-- Whether the rim is dashed, which marks defined names. -/
  dashed : Bool
  deriving DecidableEq

/-- The geometry of a drawing: the size of the page, the edges in the order of their upper nodes and
their slots, and the discs in the order of their nodes. -/
structure Page (α : Type) where
  width : α
  height : α
  curves : List (Curve α)
  discs : List (Disc α)
  deriving DecidableEq

variable {α : Type} [Coordinate α]

namespace PageStyle

/-- The distance of the outermost centres from the edges of the page. -/
def inset (style : PageStyle α) : α := style.padding + style.radius

/-- The centre of a node's disc, where the leftmost node stands at the given position. -/
def centre (style : PageStyle α) (leftmost : α) (node : PlacedNode α) : Point α :=
  ⟨style.inset + style.columnWidth * (node.offset - leftmost),
    style.inset + style.rowHeight * Coordinate.ofNat node.depth⟩

/-- The edge from a slot of an upper disc to a lower disc, given the centres. -/
def curve (style : PageStyle α) (upper : Point α) (slot slots : Nat) (lower : Point α) : Curve α :=
  let share := Coordinate.ofNat (slot + 1) / Coordinate.ofNat (slots + 1)
  ⟨⟨upper.x + share * Coordinate.two * style.radius - style.radius, upper.y + style.radius⟩,
    ⟨lower.x, lower.y - style.radius⟩⟩

/-- The edges of a node, where the centres are listed by the places of the nodes. -/
def curves? (style : PageStyle α) (centres : Array (Point α)) (node : PlacedNode α) :
    Option (List (Curve α)) :=
  node.children.zipIdx.mapM fun (child, slot) =>
    return style.curve (← centres[node.id]?) slot node.children.length (← centres[child]?)

end PageStyle

namespace Layout

/-- The geometry of a layout that has nodes. There is none when a node is referred to by a number
that is not a place. -/
def page? (style : PageStyle α) (layout : Layout α) : Option (Page α) := do
  let leftmost := layout.minOffset
  let centres := layout.nodes.map (style.centre leftmost)
  let margins := Coordinate.two * style.inset
  let curves ← layout.nodes.toList.mapM (style.curves? centres)
  let discs ← layout.nodes.toList.mapM fun node =>
    return ⟨← centres[node.id]?, node.label, node.kind == .var⟩
  return {
    width := style.columnWidth * layout.width + margins
    height := style.rowHeight * Coordinate.ofNat (layout.height - 1) + margins
    curves := curves.flatten
    discs }

end Layout

end ExprDiagram
