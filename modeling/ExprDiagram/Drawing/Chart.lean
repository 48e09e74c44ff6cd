/-
This file draws a layout with characters. Each row of the layout is one line of labels, and labels
are centred on the columns of their nodes. An edge leaves its upper node downward into the line just
below the labels, its bus line, runs along it to the column of the lower node, and falls from there
to an arrowhead above that node's label. The labels are written last, so that no line hides them.
-/

import ExprDiagram.Drawing.Canvas
import ExprDiagram.Layout.Basic

namespace ExprDiagram

/-- How a layout is drawn with characters. -/
structure ChartStyle where
  charSet : CharSet
  /-- The number of columns for a distance of one; zero for as many as the longest label needs. -/
  columnWidth : Nat
  /-- The number of lines from one row of labels to the next. -/
  rowHeight : Nat
  deriving DecidableEq

/-- The least number of columns that is taken where the labels decide. -/
def minColumnWidth : Nat := 4

/-- The least number of lines from one row of labels to the next. -/
def minRowHeight : Nat := 2

/-- The most bytes that a list can have in memory: the greatest signed machine word. -/
def mostBytes : Nat := 9223372036854775807

/-- The bytes of a character in a row of the grid. -/
def characterBytes : Nat := 4

/-- The bytes of a row in the list of rows, which tells where its characters are and how many. -/
def rowBytes : Nat := 24

/-- A cell of the drawing. -/
structure Cell where
  column : Nat
  row : Nat
  deriving DecidableEq

/-- Draws the edge between the cells of two labels, as far as there is room for it. -/
def Canvas.wire (canvas : Canvas) (upper lower : Cell) : Canvas :=
  let bus := upper.row + 1
  if lower.row ≤ bus then canvas
  else
    let distance : Int := lower.column - upper.column
    let start := Junction.merge ⟨true, false, false, false⟩ (.toward distance)
    let turn := Junction.merge ⟨false, true, false, false⟩ (.toward (-distance))
    let canvas := canvas.join upper.column bus start
    let canvas := canvas.horizontalBetween bus upper.column lower.column
    let canvas := canvas.join lower.column bus turn
    if bus < lower.row - 1 then
      (canvas.vertical lower.column (bus + 1) (lower.row - 2)).set lower.column (lower.row - 1)
        canvas.charSet.chars.arrowDown
    else canvas

variable {α : Type}

/-- The label of a node as it is drawn: that of a defined name stands in brackets. -/
def PlacedNode.drawnLabel (chars : LineChars) (node : PlacedNode α) : List Char :=
  match node.kind with
  | .var => chars.nameOpen :: node.label.toList ++ [chars.nameClose]
  | _ => node.label.toList

/-- Everything that the drawing of a layout depends on. -/
structure Chart where
  style : ChartStyle
  /-- The drawn labels, by the places of the nodes. -/
  labels : Array (List Char)
  /-- The column of each node, by its place. -/
  columns : Array Nat
  /-- The row of the layout that each node stands in, by its place. -/
  depths : Array Nat

namespace Chart

/-- The length of the longest label. -/
def widest (labels : Array (List Char)) : Nat :=
  labels.foldl (fun widest label => max widest label.length) 0

/-- The number of columns for a distance of one. -/
def unit (style : ChartStyle) (widest : Nat) : Nat :=
  if style.columnWidth = 0 then max (widest + 2) minColumnWidth else style.columnWidth

/-- The number of lines from one row of labels to the next. -/
def step (style : ChartStyle) : Nat := max style.rowHeight minRowHeight

/-- The chart of a layout. The leftmost column leaves room for half of the longest label. -/
def ofLayout [Coordinate α] (style : ChartStyle) (layout : Layout α) : Chart :=
  let labels := layout.nodes.map (PlacedNode.drawnLabel style.charSet.chars)
  let widest := widest labels
  let leftmost := layout.minOffset
  { style
    labels
    columns := layout.nodes.map fun node =>
      widest / 2 +
        Coordinate.nearest ((node.offset - leftmost) * Coordinate.ofNat (unit style widest))
    depths := layout.nodes.map PlacedNode.depth }

/-- The number of columns of the grid that a chart is drawn on. -/
def width (chart : Chart) : Nat := chart.columns.foldl max 0 + widest chart.labels + 1

/-- The number of lines of the grid that a chart is drawn on. -/
def height (chart : Chart) : Nat := chart.depths.foldl max 0 * step chart.style + 1

/-- The grid of a chart can be stored: neither a row of characters nor the list of the rows takes
more bytes than a list can have. All columns and lines are then far below the greatest machine word,
so that none of the sums and products that lead to them overflows. -/
def Storable (chart : Chart) : Prop :=
  characterBytes * chart.width ≤ mostBytes ∧ rowBytes * chart.height ≤ mostBytes

instance (chart : Chart) : Decidable chart.Storable :=
  inferInstanceAs <| Decidable <|
    characterBytes * chart.width ≤ mostBytes ∧ rowBytes * chart.height ≤ mostBytes

/-- The blank grid that a chart is drawn on. -/
def blank (chart : Chart) : Canvas := .blank chart.width chart.height chart.style.charSet

/-- The cell of the label of the node at a place. -/
def cell? (chart : Chart) (place : Nat) : Option Cell := do
  return ⟨← chart.columns[place]?, (← chart.depths[place]?) * step chart.style⟩

/-- Draws an edge between the nodes at two places. -/
def wire? (chart : Chart) (canvas : Canvas) (upper lower : Nat) : Option Canvas := do
  return canvas.wire (← chart.cell? upper) (← chart.cell? lower)

/-- Writes a label in a row of the layout, centred on the column of the node at a place. The left
half of the label has to fit on the grid. -/
def label? (chart : Chart) (canvas : Canvas) (place depth : Nat) (label : List Char) :
    Option Canvas := do
  let column ← chart.columns[place]?
  let half := label.length / 2
  if half ≤ column then return canvas.write (column - half) (depth * step chart.style) label
  else none

end Chart

namespace Layout

variable [Coordinate α]

/-- The drawing of a layout with its lines and without its labels. There is none when a node is
referred to by a number that is not a place. -/
def wired? (style : ChartStyle) (layout : Layout α) : Option Canvas :=
  let chart := Chart.ofLayout style layout
  layout.edges.foldlM (fun canvas (upper, lower, _) => chart.wire? canvas upper lower) chart.blank

/-- The whole drawing of a layout. -/
def canvas? (style : ChartStyle) (layout : Layout α) : Option Canvas := do
  let chart := Chart.ofLayout style layout
  let wired ← layout.wired? style
  (layout.nodes.toList.zip chart.labels.toList).foldlM
    (fun canvas (node, label) => chart.label? canvas node.id node.depth label) wired

/-- The drawing of a layout as a text; nothing is drawn when there are no nodes. -/
def chart? (style : ChartStyle) (layout : Layout α) : Option String :=
  if layout.isEmpty then some "" else (layout.canvas? style).map Canvas.text

/-- The drawing of a layout as a text, if its grid can be stored. The sizes of the grid are looked at
before any of it is made. -/
def storedChart? (style : ChartStyle) (layout : Layout α) : Option String :=
  if (Chart.ofLayout style layout).Storable then layout.chart? style else none

end Layout

end ExprDiagram
