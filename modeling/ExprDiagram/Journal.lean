/-
This file says what happens while a text is laid out, as a list of events. A definition that is
ignored deserves a warning; everything else is of interest only to someone who looks into the
process. The events end where the process ends, so that a text which is no program has the events
of the definitions before its fault.
-/

import ExprDiagram.Conversion
import ExprDiagram.Numeral.Format

namespace ExprDiagram

/-- How much an event matters. -/
inductive Severity where
  | warning
  | detail
  | trace
  deriving DecidableEq

/-- The word for each severity. -/
def Severity.text : Severity → String
  | warning => "WARN"
  | detail => "DEBUG"
  | trace => "TRACE"

/-- Something that happens while a text is laid out. -/
inductive Event (α : Type) where
  /-- The text has been cut into tokens. -/
  | tokenized (count : Nat)
  /-- A definition was ignored because its name is taken. -/
  | ignoredDefinition (name : String)
  /-- Tokens after the program were ignored. -/
  | ignoredTokens (count : Nat)
  /-- The program has been read. -/
  | parsed (exprs bindings : Nat)
  /-- The diagram has been made. -/
  | drawn (nodes edges shared : Nat)
  /-- The subtree of a child was moved to the right. -/
  | moved (node child : Nat) (distance : α)
  /-- The layout is complete. -/
  | arranged (nodes rows : Nat) (width : α)
  deriving DecidableEq

namespace Event

/-- How much each event matters. -/
def severity : Event α → Severity
  | ignoredDefinition _ => .warning
  | moved _ _ _ => .trace
  | _ => .detail

/-- The text of each event, where `numeral` writes distances. -/
def text (numeral : α → String) : Event α → String
  | tokenized count => s!"lexed {count} tokens"
  | ignoredDefinition name => s!"'{name}' is already defined; keeping the first definition"
  | ignoredTokens count => s!"ignoring {count} trailing token(s) after the program expression"
  | parsed exprs bindings => s!"parsed {exprs} expressions with {bindings} binding(s)"
  | drawn nodes edges shared =>
    s!"built node graph: {nodes} nodes, {edges} edges, {shared} shared variable(s)"
  | moved node child distance => s!"node {node}: shifted child {child} by " ++ numeral distance
  | arranged nodes rows width => s!"layout: {nodes} nodes, {rows} rows, width " ++ numeral width

/-- The text of an event about floating point numbers. -/
def message (event : Event Float) : String := event.text messageFormat.write

end Event

variable {α : Type} [Coordinate α]

/-- The events of laying a diagram out. -/
def Arrangement.events (arrangement : Arrangement α) : List (Event α) :=
  let moves := (arrangement.moves?.getD []).map fun (node, child, distance) =>
    .moved node child distance
  match arrangement.layout? with
  | none => moves
  | some layout => moves ++ [.arranged layout.size layout.height layout.width]

/-- The events of laying a program out. -/
def Program.events (program : Program) : List (Event α) :=
  match Diagram.ofProgram program with
  | .error _ => []
  | .ok diagram =>
    let graph := diagram.graph
    .drawn graph.size graph.edges.size diagram.sharedCount ::
      match Arrangement.ofDiagram (α := α) diagram with
      | .error _ => []
      | .ok arrangement => arrangement.events

/-- The events of laying out the program at the beginning of a list of tokens. -/
def Reading.events (reading : Reading) : List (Event α) :=
  let scope := Scope.ofDefinitions reading.definitions
  let ignored := scope.ignored.map .ignoredDefinition
  match reading.outcome with
  | .error _ => ignored
  | .ok (main, trailing) =>
    let program := scope.program main
    ignored ++ (if trailing = 0 then [] else [.ignoredTokens trailing]) ++
      .parsed program.arena.size program.bindings.size :: program.events

/-- The events of laying a text out. -/
def journal (source : String) : List (Event α) :=
  let tokens := tokenize source
  .tokenized tokens.length :: (read tokens).events

end ExprDiagram
