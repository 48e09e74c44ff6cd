/-
This file holds programs as they are written: definitions of names, then one expression. An
expression of the notation is a word or a call; that a word may be the name of a definition is
no matter of the notation and is decided later.
-/

import ExprDiagram.Source.Token

namespace ExprDiagram

/-- How a word is written: as digits alone, or in any other way. -/
inductive WordKind where
  | symbol
  | number
  deriving DecidableEq

/-- The kind of word that a token is written as. -/
def Token.kind (token : Token) : WordKind :=
  if token.isNumber then .number else .symbol

/-- An expression as it is written. -/
inductive Form where
  /-- A word that stands for itself or for the definition of its name. -/
  | word (kind : WordKind) (text : String)
  /-- A label and its arguments, in parentheses. -/
  | call (label : String) (arguments : List Form)

/-- A definition form: the name and the body that it stands for. -/
structure Definition where
  name : String
  body : Form

/-- A whole program as it is written. -/
structure Script where
  definitions : List Definition
  main : Form

end ExprDiagram
