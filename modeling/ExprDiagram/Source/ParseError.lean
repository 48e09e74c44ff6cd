/-
This file holds the reasons for which a list of tokens is no program. Each of them means the same
to a caller, that nothing was read; they differ only in what they say about the place and the cause.
-/

namespace ExprDiagram

/-- Why a list of tokens is no program. Positions count tokens from zero. -/
inductive ParseError where
  /-- The tokens end where something of the given description has to follow. -/
  | unexpectedEnd (expected : String)
  /-- A parenthesis stands where a name or a label has to. -/
  | expectedIdentifier (position : Nat)
  /-- A closing parenthesis stands where an expression has to begin. -/
  | unexpectedClose (position : Nat)
  /-- The definition of a name goes on after its body. -/
  | unclosedDefinition (name : String)
  /-- The tokens end inside a call. -/
  | unclosedCall (label : String)
  /-- The calls are nested more deeply than is allowed. -/
  | nestedTooDeep (limit : Nat)
  deriving DecidableEq

/-- The wording of each error. -/
def ParseError.message : ParseError → String
  | unexpectedEnd expected => s!"unexpected end of input, expected {expected}"
  | expectedIdentifier position => s!"expected an identifier at token {position}"
  | unexpectedClose position => s!"unexpected ')' at token {position}"
  | unclosedDefinition name => s!"definition of '{name}' is missing its closing ')'"
  | unclosedCall label => s!"call to '{label}' is missing its closing ')'"
  | nestedTooDeep limit => s!"expressions nested deeper than {limit} levels"

end ExprDiagram
