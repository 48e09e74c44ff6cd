/-
This file writes layouts as JSON records for programs that do the drawing themselves: the number of
the root and one record for each node. A position that is not finite is written as null.
-/

import ExprDiagram.Layout.Basic
import ExprDiagram.Numeral.Format
import ExprDiagram.Record.Json

namespace ExprDiagram

/-- A floating point number as a JSON value. -/
def Json.ofFloat (number : Float) : Json :=
  match Binary.ofFloat number with
  | .finite negative significand exponent =>
    .number (recordFormat.writeBinary (.finite negative significand exponent))
  | _ => .null

/-- The record of a node, where `numeral` writes positions. -/
def PlacedNode.toJson (numeral : α → Json) (node : PlacedNode α) : Json :=
  .object [
    ("id", .ofNat node.id),
    ("label", .string node.label),
    ("kind", .string node.kind.text),
    ("depth", .ofNat node.depth),
    ("offset", numeral node.offset),
    ("childs", .array (node.children.map .ofNat)),
    ("belows", .array (node.below.map .ofNat))]

/-- The records of a layout, where `numeral` writes positions. -/
def Layout.toJson (numeral : α → Json) (layout : Layout α) : Json :=
  .object [
    ("root", .ofNat layout.root),
    ("nodes", .array (layout.nodes.toList.map (PlacedNode.toJson numeral)))]

/-- The records of a layout as a text, spaced in the given way, with a line feed at the end. -/
def Layout.records (spacing : Json.Spacing) (layout : Layout Float) : String :=
  (layout.toJson .ofFloat).text spacing ++ "\n"

end ExprDiagram
