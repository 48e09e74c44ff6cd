/-
This file turns a written program into stored expressions. A word in the place of an expression
stands for the variable of the first definition of that name among the definitions before it, and
for itself if there is none; labels of calls and names in definitions stand for themselves always.
The body of a definition is stored before its name is defined, so it can never refer to itself.
The body of a definition whose name is taken is stored too, but nothing refers to it.
-/

import ExprDiagram.Program.Bindings
import ExprDiagram.Source.Reader

namespace ExprDiagram

/-! ### Expressions -/

mutual
/-- Stores a written expression, its arguments before it, and gives its number. -/
def Form.store (bindings : Bindings) (arena : Arena) : Form → ExprId × Arena
  | .word kind text =>
    match bindings.lookup? text with
    | some variableId => (variableId, arena)
    | none => arena.alloc (.primitive text kind)
  | .call label arguments =>
    let (ids, arena) := Form.storeAll bindings arena arguments
    arena.alloc (.call label ids)

/-- Stores written expressions from left to right and gives their numbers. -/
def Form.storeAll (bindings : Bindings) (arena : Arena) : List Form → List ExprId × Arena
  | [] => ([], arena)
  | form :: rest =>
    let (id, arena) := form.store bindings arena
    let (ids, arena) := Form.storeAll bindings arena rest
    (id :: ids, arena)
end

/-! ### Definitions -/

/-- What the definitions up to a point have brought about. -/
structure Scope where
  arena : Arena
  bindings : Bindings
  /-- The names of the definitions that were ignored because the name was taken, in order. -/
  ignored : List String

namespace Scope

/-- The scope before the first definition. -/
def empty : Scope := ⟨.empty, .empty, []⟩

/-- The scope after one more definition. -/
def define (scope : Scope) (definition : Definition) : Scope :=
  let (body, arena) := definition.body.store scope.bindings scope.arena
  let (variableId, extended) := arena.alloc (.var definition.name body)
  match scope.bindings.bind? definition.name variableId with
  | some bindings => ⟨extended, bindings, scope.ignored⟩
  | none => ⟨arena, scope.bindings, scope.ignored ++ [definition.name]⟩

/-- The scope after a list of definitions. -/
def ofDefinitions (definitions : List Definition) : Scope :=
  definitions.foldl define empty

end Scope

/-! ### Programs -/

/-- A program: its expressions, the names it defines, and the expression that it stands for. -/
structure Program where
  arena : Arena
  bindings : Bindings
  root : ExprId
  deriving DecidableEq

/-- The program whose expression is written in a scope. -/
def Scope.program (scope : Scope) (main : Form) : Program :=
  let (root, arena) := main.store scope.bindings scope.arena
  ⟨arena, scope.bindings, root⟩

/-- The program that a script stands for. -/
def Script.program (script : Script) : Program :=
  (Scope.ofDefinitions script.definitions).program script.main

/-- The program at the beginning of a list of tokens; tokens after it are left alone. -/
def Program.parse (tokens : List Token) : Except ParseError Program :=
  (read tokens).script.map Script.program

end ExprDiagram
