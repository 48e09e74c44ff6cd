/-
This file writes vector drawings. The edges come before the discs, so that the discs cover their
ends. An edge is a small triangle where it leaves its upper disc, and a curve that leaves it and
arrives vertically. All numbers have at most two decimal places.
-/

import ExprDiagram.Numeral.Fixed
import ExprDiagram.Svg.Markup
import ExprDiagram.Svg.Page

namespace ExprDiagram

/-- Half the width of the triangle at the beginning of an edge. -/
def triangleScale : Float := 3.0

/-- How lines are stroked. -/
def stroke : List Attribute := [("stroke", "black"), ("stroke-width", "1.5")]

/-- Two numbers with a separator between them. -/
def writePair (separator : String) (x y : Float) : String :=
  writeShort x ++ separator ++ writeShort y

namespace Curve

/-- The triangle at the beginning of an edge. -/
def triangle (curve : Curve Float) : Markup :=
  let x := curve.start.x
  let y := curve.start.y
  let tip := y + Float.sqrt 3.0 * triangleScale
  let corners := [(x, y), (x - triangleScale, tip), (x + triangleScale, tip)]
  .empty "polygon" [
    ("points", " ".intercalate (corners.map fun (x, y) => writePair "," x y)),
    ("fill", "black")]

/-- The line of an edge. Both its middle points lie halfway down. -/
def path (curve : Curve Float) : Markup :=
  let middle := (curve.start.y + curve.finish.y) / 2.0
  let start := writePair " " curve.start.x curve.start.y
  let first := writePair " " curve.start.x middle
  let second := writePair " " curve.finish.x middle
  let finish := writePair " " curve.finish.x curve.finish.y
  .empty "path"
    ([("d", "M " ++ start ++ " C " ++ first ++ ", " ++ second ++ ", " ++ finish),
      ("fill", "none")] ++ stroke)

end Curve

namespace Disc

/-- The circle of a disc. -/
def circle (radius : Float) (disc : Disc Float) : Markup :=
  .empty "circle"
    ([("cx", writeShort disc.centre.x), ("cy", writeShort disc.centre.y),
      ("r", writeShort radius), ("fill", "white")] ++ stroke ++
      if disc.dashed then [("stroke-dasharray", "4 2")] else [])

/-- The label of a disc. -/
def caption (fontSize : Float) (disc : Disc Float) : Markup :=
  .text "text"
    [("x", writeShort disc.centre.x), ("y", writeShort disc.centre.y),
      ("dominant-baseline", "central"), ("text-anchor", "middle"),
      ("font-family", "Consolas, monospace"), ("font-size", writeShort fontSize)]
    disc.label

end Disc

/-- The markup of a page. -/
def Page.markup (style : PageStyle Float) (page : Page Float) : List Markup :=
  let width := writeShort page.width
  let height := writeShort page.height
  [.opening "svg" [("xmlns", "http://www.w3.org/2000/svg"), ("width", width), ("height", height),
      ("viewBox", "0 0 " ++ width ++ " " ++ height)],
    .empty "rect" [("width", width), ("height", height), ("fill", "white")]] ++
  page.curves.flatMap (fun curve => [curve.triangle, curve.path]) ++
  page.discs.flatMap (fun disc => [disc.circle style.radius, disc.caption style.fontSize]) ++
  [.closing "svg"]

/-- The vector drawing of a layout as a text; nothing is drawn when there are no nodes. -/
def Layout.svg? (style : PageStyle Float) (layout : Layout Float) : Option String :=
  if layout.isEmpty then some ""
  else (layout.page? style).map fun page => Markup.document (page.markup style)

end ExprDiagram
