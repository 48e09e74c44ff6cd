/-
This file holds the expressions of a program as a numbered list. An expression refers to others by
their numbers, so that an expression which is used twice is stored once, and two uses of a defined
name are one number. Nothing here keeps a number from being too large or from leading back to its
own expression; a program that was read never has such a number.
-/

import ExprDiagram.Source.Script

namespace ExprDiagram

/-- The number of an expression in its arena. -/
abbrev ExprId := Nat

/-- The way the number of an expression is written. -/
def ExprId.text (id : ExprId) : String := s!"Expr({id})"

/-- A stored expression. -/
inductive Expr where
  /-- A label with its arguments in order. -/
  | call (label : String) (arguments : List ExprId)
  /-- A word that no definition stands for. -/
  | primitive (label : String) (kind : WordKind)
  /-- A defined name and the body that it stands for. -/
  | var (label : String) (bound : ExprId)
  deriving DecidableEq

namespace Expr

/-- The label or the word. -/
def label : Expr → String
  | call label _ => label
  | primitive label _ => label
  | var label _ => label

/-- The expressions directly below, in order. -/
def children : Expr → List ExprId
  | call _ arguments => arguments
  | primitive _ _ => []
  | var _ bound => [bound]

end Expr

/-- The expressions of a program; the number of an expression is its place. -/
structure Arena where
  exprs : Array Expr
  deriving DecidableEq

namespace Arena

/-- The arena without expressions. -/
def empty : Arena := ⟨#[]⟩

/-- The number of stored expressions. -/
def size (arena : Arena) : Nat := arena.exprs.size

/-- Stores an expression under the next number. There is room for 4294967295 expressions, and the
program stops with an assertion before it stores one more; this is left out, so all that is shown of
programs is meant for those that stay within this room. -/
def alloc (arena : Arena) (expr : Expr) : ExprId × Arena :=
  (arena.size, ⟨arena.exprs.push expr⟩)

/-- The expression of a number, if there is one. -/
def get? (arena : Arena) (id : ExprId) : Option Expr := arena.exprs[id]?

/-- All expressions with their numbers, in the order in which they were stored. -/
def entries (arena : Arena) : List (ExprId × Expr) :=
  (List.range arena.size).zip arena.exprs.toList

end Arena

end ExprDiagram
