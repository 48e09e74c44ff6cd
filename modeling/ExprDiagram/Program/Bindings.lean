/-
This file holds the names that are defined at a point of a program. The first definition of a name
holds: a later one changes nothing, and the names keep the order of their first definitions.
-/

import ExprDiagram.Program.Arena

namespace ExprDiagram

/-- The defined names in the order of their definitions, each with its variable. -/
structure Bindings where
  entries : List (String × ExprId)
  deriving DecidableEq

namespace Bindings

/-- No name is defined. -/
def empty : Bindings := ⟨[]⟩

/-- The number of defined names. -/
def size (bindings : Bindings) : Nat := bindings.entries.length

/-- The variable of a name, if the name is defined. -/
def lookup? (bindings : Bindings) (name : String) : Option ExprId :=
  bindings.entries.lookup name

/-- Adds a name with its variable; nothing comes of it when the name is defined already. -/
def bind? (bindings : Bindings) (name : String) (variableId : ExprId) : Option Bindings :=
  if (bindings.lookup? name).isSome then none
  else some ⟨bindings.entries ++ [(name, variableId)]⟩

end Bindings

end ExprDiagram
