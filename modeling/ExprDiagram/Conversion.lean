/-
This file takes a text the whole way to its layout. Either the text is no program, or the program
cannot be drawn, or there is a layout; nothing is given in part.
-/

import ExprDiagram.Layout.Arrangement

namespace ExprDiagram

/-- Why a text has no layout. -/
inductive ConversionError where
  /-- The text is no program. -/
  | parse (cause : ParseError)
  /-- The program or its layout cannot be drawn. -/
  | draw (cause : DrawError)
  deriving DecidableEq

/-- The wording of each error. -/
def ConversionError.message : ConversionError → String
  | parse cause => cause.message
  | draw cause => cause.message

/-- The program that a text stands for. -/
def parse (source : String) : Except ParseError Program :=
  Program.parse (tokenize source)

/-- The layout of a text. -/
def convert [Coordinate α] (source : String) : Except ConversionError (Layout α) := do
  let program ← (parse source).mapError .parse
  (Layout.ofProgram program).mapError .draw

end ExprDiagram
