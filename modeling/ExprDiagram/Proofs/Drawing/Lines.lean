/-
This file says which text is made of a grid. White space at the ends of rows is left out, and so are
rows of nothing but white space below all others; what is left of the rows are the lines of the
text. When nothing is left, the text is one empty line.
-/

import ExprDiagram.Proofs.Drawing.Grid
import Mathlib.Data.List.DropRight

namespace ExprDiagram

/-- The lines are those of the text, and they show the rows of the grid: each row is its line and
white space, and is all white space where there is no line. No line ends with white space, and the
last one is not empty unless it is the only one. -/
structure Canvas.Printed (canvas : Canvas) (lines : List (List Char)) (text : String) : Prop where
  text : text.toList = lines.flatMap fun line => line ++ ['\n']
  whole : ∀ line ∈ lines, '\n' ∉ line
  fewer : lines.length ≤ canvas.rows.size
  rows : ∀ (row : Nat) (cells : Array Char), canvas.rows[row]? = some cells →
    ∃ blanks, cells.toList = lines[row]?.getD [] ++ blanks ∧
      ∀ character ∈ blanks, isWhiteSpace character
  trimmed : ∀ line ∈ lines, ∀ last ∈ line.getLast?, ¬ isWhiteSpace last
  ends : lines.getLast? = some [] → lines = [[]]

/-! ### Endings -/

theorem intercalate_concat {separator : Char} {lines : List (List Char)} (nonempty : lines ≠ []) :
    [separator].intercalate lines ++ [separator] =
      lines.flatMap fun line => line ++ [separator] := by
  induction lines with
  | nil => exact absurd rfl nonempty
  | cons first rest inductionHypothesis =>
    cases rest with
    | nil => simp
    | cons second others =>
      rw [List.intercalate_cons_cons, List.append_assoc,
        inductionHypothesis (List.cons_ne_nil _ _)]
      rfl

/-- What was left out at the end of a list does not hold of the last member that is left. -/
theorem getLast?_rdropWhile {α : Type} {holds : α → Bool} {members : List α} {last : α}
    (found : (members.rdropWhile holds).getLast? = some last) : ¬ holds last := by
  have nonempty : members.rdropWhile holds ≠ [] := by
    intro empty
    rw [empty] at found
    cases found
  rw [List.getLast?_eq_some_getLast nonempty] at found
  exact Option.some.inj found ▸ List.rdropWhile_last_not holds members nonempty

namespace Canvas

variable {canvas : Canvas} {row : Nat} {cells : Array Char}

/-- The rows without the white space at their ends. -/
def trimmed (canvas : Canvas) : List (List Char) :=
  canvas.rows.toList.map fun cells => trimLine cells.toList

/-- A row without the white space at its end is its line, if it has one, and else is empty. -/
theorem getD_lines (found : canvas.rows[row]? = some cells) :
    canvas.lines[row]?.getD [] = trimLine cells.toList := by
  have here : canvas.trimmed[row]? = some (trimLine cells.toList) := by
    rw [trimmed, List.getElem?_map, Array.getElem?_toList, found]
    rfl
  have split : canvas.lines ++ canvas.trimmed.rtakeWhile List.isEmpty = canvas.trimmed :=
    List.rdropWhile_append_rtakeWhile
  rw [← split] at here
  by_cases bound : row < canvas.lines.length
  · rw [List.getElem?_append_left bound] at here
    rw [here]
    rfl
  · have beyond := Nat.le_of_not_lt bound
    rw [List.getElem?_append_right beyond] at here
    have empty := List.mem_rtakeWhile_imp (List.mem_of_getElem? here)
    rw [List.getElem?_eq_none beyond, List.isEmpty_iff.mp empty]
    rfl

theorem mem_trimmed_of_mem_lines {line : List Char} (member : line ∈ canvas.lines) :
    ∃ cells ∈ canvas.rows, line = trimLine cells.toList := by
  have inTrimmed : line ∈ canvas.trimmed :=
    (List.rdropWhile_prefix List.isEmpty canvas.trimmed).subset member
  obtain ⟨cells, inRows, rfl⟩ := List.mem_map.mp inTrimmed
  exact ⟨cells, Array.mem_toList_iff.mp inRows, rfl⟩

theorem printed_lines (clean : ∀ cells ∈ canvas.rows, '\n' ∉ cells)
    (nonempty : canvas.lines ≠ []) : canvas.Printed canvas.lines canvas.text where
  text := by rw [Canvas.text, String.toList_ofList, intercalate_concat nonempty]
  whole line member inLine := by
    obtain ⟨cells, inRows, rfl⟩ := mem_trimmed_of_mem_lines member
    have inCells := (List.rdropWhile_prefix isWhiteSpace cells.toList).subset inLine
    exact clean cells inRows (Array.mem_toList_iff.mp inCells)
  fewer := by
    have shorter := (List.rdropWhile_prefix List.isEmpty canvas.trimmed).length_le
    rwa [trimmed, List.length_map, Array.length_toList] at shorter
  rows row cells found := by
    rw [getD_lines found]
    exact ⟨cells.toList.rtakeWhile isWhiteSpace, List.rdropWhile_append_rtakeWhile.symm,
      fun _ => List.mem_rtakeWhile_imp⟩
  trimmed line member last isLast := by
    obtain ⟨cells, _, rfl⟩ := mem_trimmed_of_mem_lines member
    exact getLast?_rdropWhile isLast
  ends isLast := absurd rfl (getLast?_rdropWhile isLast)

/-- Where no row has a line, the text is one empty line. -/
theorem printed_empty (size : 0 < canvas.rows.size) (empty : canvas.lines = []) :
    canvas.Printed [[]] canvas.text where
  text := by
    rw [Canvas.text, String.toList_ofList, empty]
    rfl
  whole := by simp
  fewer := size
  rows row cells found := by
    have none := getD_lines found
    rw [empty] at none
    have white := List.rdropWhile_eq_nil_iff.mp none.symm
    refine ⟨cells.toList, ?_, white⟩
    cases row <;> rfl
  trimmed := by simp
  ends _ := rfl

/-- A grid that has cells, and no line feed, is printed as the lines of its text. -/
theorem Fits.exists_printed {width height : Nat} {charSet : CharSet}
    (fits : canvas.Fits width height charSet) (wide : 0 < width) (high : 0 < height) :
    ∃ lines, canvas.Printed lines canvas.text := by
  by_cases empty : canvas.lines = []
  · obtain ⟨character, found⟩ := Option.isSome_iff_exists.mp (fits.cells 0 0 wide high)
    obtain ⟨cells, first, _⟩ := Option.bind_eq_some_iff.mp found
    exact ⟨_, printed_empty (Array.getElem?_eq_some_iff.mp first).1 empty⟩
  · refine ⟨_, printed_lines (fun cells member inCells => ?_) empty⟩
    obtain ⟨row, inRows, rfl⟩ := Array.getElem_of_mem member
    obtain ⟨column, inRow, feed⟩ := Array.getElem_of_mem inCells
    refine fits.clean column row ?_
    rw [at?, Array.getElem?_eq_getElem inRows, Option.bind_some, Array.getElem?_eq_getElem inRow,
      feed]

/-- What can be seen in a cell can be seen in the line of its row. -/
theorem Printed.getElem?_line {lines : List (List Char)} {text : String}
    (printed : canvas.Printed lines text) {column : Nat} {character : Char}
    (found : canvas.at? column row = some character) (visible : ¬ isWhiteSpace character) :
    (lines[row]?.getD [])[column]? = some character := by
  obtain ⟨cells, inRows, inCells⟩ := Option.bind_eq_some_iff.mp found
  obtain ⟨blanks, split, white⟩ := printed.rows row cells inRows
  rw [← Array.getElem?_toList, split] at inCells
  by_cases bound : column < (lines[row]?.getD []).length
  · rwa [List.getElem?_append_left bound] at inCells
  · rw [List.getElem?_append_right (Nat.le_of_not_lt bound)] at inCells
    exact absurd (white character (List.mem_of_getElem? inCells)) visible

/-- What stands in a cell is read in the line of its row, where a line that has ended shows
blanks. -/
theorem Printed.getD_line {lines : List (List Char)} {text : String}
    (printed : canvas.Printed lines text) {column : Nat} {character : Char}
    (found : canvas.at? column row = some character)
    (plain : character = ' ' ∨ ¬ isWhiteSpace character) :
    ((lines[row]?.getD [])[column]?).getD ' ' = character := by
  rcases plain with rfl | visible
  · obtain ⟨cells, inRows, inCells⟩ := Option.bind_eq_some_iff.mp found
    obtain ⟨blanks, split, _⟩ := printed.rows row cells inRows
    rw [← Array.getElem?_toList, split] at inCells
    by_cases bound : column < (lines[row]?.getD []).length
    · rw [List.getElem?_append_left bound] at inCells
      rw [inCells, Option.getD_some]
    · rw [List.getElem?_eq_none (Nat.le_of_not_lt bound), Option.getD_none]
  · rw [printed.getElem?_line found visible, Option.getD_some]

end Canvas

end ExprDiagram
