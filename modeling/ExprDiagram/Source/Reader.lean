/-
This file reads a program from its tokens. The reader takes one token at a time: its state says
what has been read and what may follow, so that a token is either taken, which gives the next
state, or refused, which gives the error, and nothing that follows can change either. After the
program's expression the reader is done and leaves the remaining tokens alone.

A parenthesis followed by the identifier `define`, where the program's expression could begin,
always begins a definition. Calls may be nested to a fixed depth; the body of a definition counts
as one level down.
-/

import ExprDiagram.Source.ParseError
import ExprDiagram.Source.Script

namespace ExprDiagram

/-- The number of levels that calls may be nested below an expression that stands alone. -/
def maxNesting : Nat := 512

/-- The identifier that makes a parenthesis begin a definition. -/
def defineKeyword : String := "define"

namespace Reader

/-! ### States -/

/-- What the expression that is being read is for. -/
inductive Goal where
  /-- It is the body of the definition of a name. -/
  | body (name : String)
  /-- It is the expression of the program. -/
  | main
  deriving DecidableEq

/-- The level at which an expression stands: a body stands one level down in its definition. -/
def Goal.level : Goal → Nat
  | body _ => 1
  | main => 0

/-- A call whose closing parenthesis has not been read. -/
structure OpenCall where
  label : String
  /-- The arguments read so far, the latest first. -/
  arguments : List Form

/-- What has been read of the form at hand, and thereby what may follow. -/
inductive Stage where
  /-- A definition or the program's expression may begin here. -/
  | between
  /-- An opening parenthesis has been read between forms: the keyword or a label follows. -/
  | head
  /-- The parenthesis and the keyword have been read: the name follows. -/
  | defining
  /-- An opening parenthesis has been read in an expression: the label follows. The calls around it
  are listed from the inside out. -/
  | calling (goal : Goal) (around : List OpenCall)
  /-- An expression may begin here, or the innermost call may be closed. -/
  | expression (goal : Goal) (around : List OpenCall)
  /-- The body of a definition has been read: its closing parenthesis follows. -/
  | closing (name : String) (body : Form)
  /-- The program's expression has been read. -/
  | done (main : Form)

/-- The stage after an expression has been read: it is an argument of the innermost open call, or
it is what was to be read. -/
def Stage.deliver (goal : Goal) (around : List OpenCall) (form : Form) : Stage :=
  match around, goal with
  | call :: outer, _ => .expression goal (⟨call.label, form :: call.arguments⟩ :: outer)
  | [], .body name => .closing name form
  | [], .main => .done form

end Reader

/-- A program that has been read in part: the definitions that are complete, in their order, and
the stage of the form at hand. -/
structure Reader where
  definitions : List Definition
  stage : Reader.Stage

namespace Reader

/-- The reader before the first token. -/
def start : Reader := ⟨[], .between⟩

/-! ### Taking a token -/

/-- The label of a call has to be a word. -/
def takeLabel (goal : Goal) (around : List OpenCall) (position : Nat) (token : Token) :
    Except ParseError Stage :=
  match token.word? with
  | some label => .ok (.expression goal (⟨label, []⟩ :: around))
  | none => .error (.expectedIdentifier position)

/-- The name of a definition has to be a word. -/
def takeName (position : Nat) (token : Token) : Except ParseError Stage :=
  match token.word? with
  | some name => .ok (.expression (.body name) [])
  | none => .error (.expectedIdentifier position)

/-- Takes a token where an expression may begin. A closing parenthesis closes the innermost open
call; every other token begins an expression, which must not stand too deep. -/
def takeExpression (goal : Goal) (around : List OpenCall) (position : Nat) (token : Token) :
    Except ParseError Stage :=
  match token, around with
  | .closeParen, call :: outer =>
    .ok (.deliver goal outer (.call call.label call.arguments.reverse))
  | .closeParen, [] => .error (.unexpectedClose position)
  | token, around =>
    if maxNesting < goal.level + around.length then .error (.nestedTooDeep maxNesting)
    else
      match token.word? with
      | some text => .ok (.deliver goal around (.word token.kind text))
      | none => .ok (.calling goal around)

/-- Takes the token at a position, or refuses it. -/
def take (reader : Reader) (position : Nat) (token : Token) : Except ParseError Reader :=
  match reader.stage with
  | .between =>
    if token = .openParen then .ok { reader with stage := .head }
    else do return { reader with stage := ← takeExpression .main [] position token }
  | .head =>
    if token = .identifier defineKeyword then .ok { reader with stage := .defining }
    else do return { reader with stage := ← takeLabel .main [] position token }
  | .defining => do return { reader with stage := ← takeName position token }
  | .calling goal around =>
    do return { reader with stage := ← takeLabel goal around position token }
  | .expression goal around =>
    do return { reader with stage := ← takeExpression goal around position token }
  | .closing name body =>
    if token = .closeParen then .ok ⟨reader.definitions ++ [⟨name, body⟩], .between⟩
    else .error (.unclosedDefinition name)
  | .done _ => .ok reader

/-! ### The end of the tokens -/

/-- The program's expression, if the tokens may end here. -/
def Stage.finish : Stage → Except ParseError Form
  | .between => .error (.unexpectedEnd "an expression")
  | .head => .error (.unexpectedEnd "a call label")
  | .defining => .error (.unexpectedEnd "a name after 'define'")
  | .calling _ _ => .error (.unexpectedEnd "a call label")
  | .expression _ (call :: _) => .error (.unclosedCall call.label)
  | .expression _ [] => .error (.unexpectedEnd "an expression")
  | .closing name _ => .error (.unclosedDefinition name)
  | .done main => .ok main

end Reader

/-! ### Reading a list of tokens -/

/-- What came of reading a list of tokens. The definitions that were complete are known also when
no program was read. -/
structure Reading where
  definitions : List Definition
  /-- The program's expression and the number of tokens that stand after it. -/
  outcome : Except ParseError (Form × Nat)

/-- The program that was read. -/
def Reading.script (reading : Reading) : Except ParseError Script :=
  reading.outcome.map fun (main, _) => ⟨reading.definitions, main⟩

/-- Takes tokens until the program is complete, a token is refused or the tokens end. -/
def Reader.run (reader : Reader) (position : Nat) : List Token → Reading
  | [] => ⟨reader.definitions, reader.stage.finish.map fun main => (main, 0)⟩
  | token :: rest =>
    match reader.stage with
    | .done main => ⟨reader.definitions, .ok (main, (token :: rest).length)⟩
    | _ =>
      match reader.take position token with
      | .error error => ⟨reader.definitions, .error error⟩
      | .ok next => next.run (position + 1) rest

/-- Reads a program from the beginning of a list of tokens. -/
def read (tokens : List Token) : Reading :=
  Reader.start.run 0 tokens

end ExprDiagram
