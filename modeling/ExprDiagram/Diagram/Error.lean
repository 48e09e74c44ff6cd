/-
This file holds the reasons for which a program or a layout cannot be drawn. Where a program was read
from a text, the only one is a drawing that asks for more memory than there can be; the others are
found in programs, graphs and layouts that were put together by hand.
-/

namespace ExprDiagram

/-- Why a program or a layout cannot be drawn. -/
inductive DrawError where
  /-- An expression of the given label contains itself. -/
  | cyclicExpression (label : String)
  /-- The edges of the graph run in a circle. -/
  | cyclicGraph
  /-- A number is used as the number of an expression or a node, and there is none; or the grid of a
  drawing is too great to be stored. -/
  | outOfRange
  deriving DecidableEq

/-- The wording of each error. -/
def DrawError.message : DrawError → String
  | cyclicExpression label => s!"expression '{label}' refers back to itself"
  | cyclicGraph => "node graph contains a cycle"
  | outOfRange => "a number is out of range"

/-- The value, where its absence means that a number is out of range. -/
def inRange : Option α → Except DrawError α
  | some value => .ok value
  | none => .error .outOfRange

end ExprDiagram
