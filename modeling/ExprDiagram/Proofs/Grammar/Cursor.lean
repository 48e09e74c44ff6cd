/-
This file connects the two ways of looking at tokens. A reader takes whatever token is next; a
caller with a cursor asks for what may come. In operations of the cursor each stage of a reader is a
question or two: for a parenthesis, for the keyword, for a word, or for any token at all. The
answers lead to the next stage and move the cursor just as far as the reader has read, so that
programs are read in this way as well, with the same definitions, the same expression and the same
errors.
-/

import ExprDiagram.Source.Cursor
import ExprDiagram.Source.Reader
import Mathlib.Tactic.Common

namespace ExprDiagram

/-! ### Cursors in a list of tokens -/

namespace Cursor

/-- A cursor that stands before a token moves to the next position. -/
theorem advance_seek {tokens : List Token} {position : Nat} (inside : position < tokens.length) :
    (seek tokens position).advance = seek tokens (position + 1) := by
  rw [seek, List.drop_eq_getElem_cons inside]
  rfl

/-- A cursor at the end stays there, wherever it has been put. -/
theorem advance_seek_of_le {tokens : List Token} {position : Nat}
    (behind : tokens.length ≤ position) :
    (seek tokens position).advance = seek tokens position := by
  rw [seek, List.drop_eq_nil_of_le behind]
  rfl

end Cursor

/-! ### Reading with a cursor -/

namespace Reader

/-- The stage after a reader has asked what stands at a cursor, and the cursor afterwards. Where a
definition may begin and none does, the cursor stays before the expression. -/
def ask (reader : Reader) (cursor : Cursor) : Except ParseError (Reader × Cursor) :=
  match reader.stage with
  | .between =>
    match cursor.eatOpen with
    | (true, next) => .ok ({ reader with stage := .head }, next)
    | (false, same) => .ok ({ reader with stage := .expression .main [] }, same)
  | .head =>
    match cursor.eatKeyword defineKeyword with
    | (true, next) => .ok ({ reader with stage := .defining }, next)
    | (false, same) => .ok ({ reader with stage := .calling .main [] }, same)
  | .defining => do
    let (name, next) ← cursor.expectWord "a name after 'define'"
    return ({ reader with stage := .expression (.body name) [] }, next)
  | .calling goal around => do
    let (label, next) ← cursor.expectWord "a call label"
    return ({ reader with stage := .expression goal (⟨label, []⟩ :: around) }, next)
  | .expression goal around =>
    match cursor.next?, around with
    | (some token, next), around => do
      return ({ reader with stage := ← takeExpression goal around cursor.position token }, next)
    | (none, _), call :: _ => .error (.unclosedCall call.label)
    | (none, _), [] => .error (.unexpectedEnd "an expression")
  | .closing name body =>
    match cursor.eatClose with
    | (true, next) => .ok (⟨reader.definitions ++ [⟨name, body⟩], .between⟩, next)
    | (false, _) => .error (.unclosedDefinition name)
  | .done _ => .ok (reader, cursor)

variable {reader next : Reader} {cursor later : Cursor}

/-- A question consumes one token or none. -/
theorem later_of_ask (asked : reader.ask cursor = .ok (next, later)) :
    later = cursor ∨ later = cursor.advance := by
  obtain ⟨definitions, stage⟩ := reader
  obtain ⟨position, rest⟩ := cursor
  cases rest with
  | nil =>
    cases stage with
    | between | head | done => cases asked; exact .inl rfl
    | defining | calling | closing => cases asked
    | expression goal around => cases around <;> cases asked
  | cons token rest =>
    cases stage with
    | between =>
      simp only [ask, Cursor.eatOpen, Cursor.eat] at asked
      split_ifs at asked <;> cases asked <;> simp
    | head =>
      simp only [ask, Cursor.eatKeyword, Cursor.eat] at asked
      split_ifs at asked <;> cases asked <;> simp
    | closing name body =>
      simp only [ask, Cursor.eatClose, Cursor.eat] at asked
      split_ifs at asked
      cases asked
      exact .inr rfl
    | defining => cases token <;> cases asked <;> exact .inr rfl
    | calling goal around => cases token <;> cases asked <;> exact .inr rfl
    | expression goal around =>
      simp only [ask, Cursor.next?, Cursor.peek?, List.head?_cons] at asked
      cases took : takeExpression goal around position token with
      | error cause =>
        rw [took] at asked
        cases asked
      | ok stage =>
        rw [took] at asked
        cases asked
        exact .inr rfl
    | done main =>
      cases asked
      exact .inl rfl

/-- The cursor stands in the list of tokens all the time. -/
theorem later_of_ask_seek {tokens : List Token} {position : Nat}
    (asked : reader.ask (Cursor.seek tokens position) = .ok (next, later)) :
    later = Cursor.seek tokens position ∨
      position < tokens.length ∧ later = Cursor.seek tokens (position + 1) := by
  rcases later_of_ask asked with rfl | rfl
  · exact .inl rfl
  · rcases Nat.lt_or_ge position tokens.length with inside | behind
    · exact .inr ⟨inside, Cursor.advance_seek inside⟩
    · exact .inl (Cursor.advance_seek_of_le behind)

/-- What comes of reading on from a cursor. -/
def runFrom (reader : Reader) (cursor : Cursor) : Reading :=
  reader.run cursor.position cursor.rest

theorem runFrom_done (definitions : List Definition) (main : Form) (cursor : Cursor) :
    runFrom ⟨definitions, .done main⟩ cursor = ⟨definitions, .ok (main, cursor.remaining)⟩ := by
  obtain ⟨position, rest⟩ := cursor
  cases rest <;> rfl

/-- A program is read by asking what stands at the cursor, until the program is complete or there is
an error. -/
theorem runFrom_eq_ask (reader : Reader) (cursor : Cursor) :
    reader.runFrom cursor =
      match reader.ask cursor with
      | .error cause => ⟨reader.definitions, .error cause⟩
      | .ok (next, later) => next.runFrom later := by
  obtain ⟨definitions, stage⟩ := reader
  obtain ⟨position, rest⟩ := cursor
  cases rest with
  | nil =>
    cases stage with
    | expression goal around => cases around <;> rfl
    | _ => rfl
  | cons token rest =>
    cases stage with
    | between =>
      by_cases opens : token = .openParen
      · subst opens
        rfl
      · simp [runFrom, ask, Cursor.eatOpen, Cursor.eat, Cursor.peek?, run, take, opens]
    | head =>
      by_cases defines : token = .identifier defineKeyword
      · subst defines
        rfl
      · simp [runFrom, ask, Cursor.eatKeyword, Cursor.eat, Cursor.peek?, run, take, defines]
    | defining => cases token <;> rfl
    | calling goal around => cases token <;> rfl
    | expression goal around =>
      simp only [runFrom, ask, Cursor.next?, Cursor.peek?, run, take, List.head?_cons]
      cases takeExpression goal around position token <;> rfl
    | closing name body =>
      by_cases closes : token = .closeParen
      · subst closes
        rfl
      · simp [runFrom, ask, Cursor.eatClose, Cursor.eat, Cursor.peek?, run, take, closes]
    | done main => rfl

/-- A list of tokens is read from a cursor before the first of them. -/
theorem read_eq_runFrom (tokens : List Token) :
    read tokens = start.runFrom (Cursor.seek tokens 0) := rfl

end Reader

end ExprDiagram
