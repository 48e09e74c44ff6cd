/-
This file holds a reading position in a list of tokens, for callers that look at tokens one by one;
programs can be read in its operations too. A cursor knows its position and the tokens from there
on. It may stand behind the last token, and no operation moves it when there is nothing to consume.
-/

import ExprDiagram.Source.Token
import ExprDiagram.Source.ParseError

namespace ExprDiagram

/-- A position in a list of tokens, together with the tokens that stand there and after it. -/
structure Cursor where
  position : Nat
  rest : List Token
  deriving DecidableEq

namespace Cursor

/-- The cursor at a position of a list of tokens; behind the last token nothing is left to read. -/
def seek (tokens : List Token) (position : Nat) : Cursor :=
  ⟨position, tokens.drop position⟩

/-- Whether all tokens have been read. -/
def atEnd (cursor : Cursor) : Bool :=
  cursor.rest.isEmpty

/-- The next token, which is left in its place. -/
def peek? (cursor : Cursor) : Option Token :=
  cursor.rest.head?

/-- The number of tokens that are left. -/
def remaining (cursor : Cursor) : Nat :=
  cursor.rest.length

/-- The cursor behind the next token; at the end it stays where it is. -/
def advance : Cursor → Cursor
  | ⟨position, []⟩ => ⟨position, []⟩
  | ⟨position, _ :: rest⟩ => ⟨position + 1, rest⟩

/-- Consumes the next token and gives it. -/
def next? (cursor : Cursor) : Option Token × Cursor :=
  (cursor.peek?, cursor.advance)

/-- Consumes the next token if it is the given one, and tells whether it was. -/
def eat (wanted : Token) (cursor : Cursor) : Bool × Cursor :=
  if cursor.peek? = some wanted then (true, cursor.advance) else (false, cursor)

/-- Consumes an opening parenthesis. -/
def eatOpen (cursor : Cursor) : Bool × Cursor :=
  cursor.eat .openParen

/-- Consumes a closing parenthesis. -/
def eatClose (cursor : Cursor) : Bool × Cursor :=
  cursor.eat .closeParen

/-- Consumes an identifier of the given text; a number is no keyword, whatever its text. -/
def eatKeyword (keyword : String) (cursor : Cursor) : Bool × Cursor :=
  cursor.eat (.identifier keyword)

/-- Consumes a word and gives its text. Where no word stands the cursor does not move. -/
def expectWord (expected : String) (cursor : Cursor) : Except ParseError (String × Cursor) :=
  match cursor.peek? with
  | none => .error (.unexpectedEnd expected)
  | some token =>
    match token.word? with
    | some text => .ok (text, cursor.advance)
    | none => .error (.expectedIdentifier cursor.position)

end Cursor

end ExprDiagram
