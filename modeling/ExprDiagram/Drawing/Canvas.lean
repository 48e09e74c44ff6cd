/-
This file holds the grid of characters that drawings are made on. Columns are counted from the left
and rows from the top, both from zero; whatever is drawn outside the grid is lost. A line that is
drawn through a cell merges with the lines that run there already, and replaces anything else.
-/

import ExprDiagram.Drawing.Junction
import ExprDiagram.Drawing.WhiteSpace

namespace ExprDiagram

/-- A grid of characters, all rows being of one width. -/
structure Canvas where
  width : Nat
  height : Nat
  charSet : CharSet
  rows : Array (Array Char)

namespace Canvas

/-- The grid of blanks. -/
def blank (width height : Nat) (charSet : CharSet) : Canvas :=
  ⟨width, height, charSet, Array.replicate height (Array.replicate width ' ')⟩

/-- The character of a cell, a blank outside the grid. -/
def get (canvas : Canvas) (column row : Nat) : Char :=
  ((canvas.rows[row]?.getD #[])[column]?).getD ' '

/-- Changes the character of a cell. -/
def update (canvas : Canvas) (column row : Nat) (change : Char → Char) : Canvas :=
  { canvas with rows := canvas.rows.modify row fun cells => cells.modify column change }

/-- Puts a character into a cell. -/
def set (canvas : Canvas) (column row : Nat) (character : Char) : Canvas :=
  canvas.update column row fun _ => character

/-- The character of a cell after a junction has been drawn over it. -/
def joined (charSet : CharSet) (junction : Junction) (character : Char) : Char :=
  match Junction.ofChar? character with
  | some existing => (existing.merge junction).toChar charSet
  | none => junction.toChar charSet

/-- Draws a junction over a cell. -/
def join (canvas : Canvas) (column row : Nat) (junction : Junction) : Canvas :=
  canvas.update column row (joined canvas.charSet junction)

/-- Draws a horizontal line in a row between two columns, given in any order, without its ends. -/
def horizontalBetween (canvas : Canvas) (row first second : Nat) : Canvas :=
  let low := min first second + 1
  let high := min (max first second) canvas.width
  (List.range' low (high - low)).foldl (fun canvas column => canvas.join column row .horizontal)
    canvas

/-- Draws a vertical line in a column from one row to another that is not above it, with its
ends. -/
def vertical (canvas : Canvas) (column top bottom : Nat) : Canvas :=
  let high := min (bottom + 1) canvas.height
  (List.range' top (high - top)).foldl (fun canvas row => canvas.join column row .vertical) canvas

/-- Writes a text from a cell to the right. -/
def write (canvas : Canvas) (column row : Nat) : List Char → Canvas
  | [] => canvas
  | character :: rest => (canvas.set column row character).write (column + 1) row rest

/-- The rows as lines, without white space at the end of each and without empty lines at the end. -/
def lines (canvas : Canvas) : List (List Char) :=
  let trimmed := canvas.rows.toList.map fun cells => trimLine cells.toList
  (trimmed.reverse.dropWhile List.isEmpty).reverse

/-- The lines as one text, which ends with a line feed. -/
def text (canvas : Canvas) : String :=
  String.ofList (['\n'].intercalate canvas.lines ++ ['\n'])

end Canvas

end ExprDiagram
