/-
This file says what each operation of drawing does to a single cell of the grid. No operation moves
cells, adds any or takes any away: a cell keeps its character, or gets one that depends on nothing
but the old one. So a drawing is followed cell by cell, and whatever is drawn beside the grid needs
no attention.
-/

import ExprDiagram.Drawing.Chart
import Mathlib.Data.List.Nodup

namespace ExprDiagram

/-! ### Characters of lines -/

theorem Junction.toChar_mem (set : CharSet) (junction : Junction) :
    junction.toChar set ∈ ' ' :: set.chars.toList := by
  obtain ⟨up, down, left, right⟩ := junction
  cases set <;> cases up <;> cases down <;> cases left <;> cases right <;> decide

theorem LineChars.arrowDown_mem (chars : LineChars) : chars.arrowDown ∈ chars.toList := by
  simp [toList]

theorem CharSet.ne_lineFeed {set : CharSet} {character : Char}
    (member : character ∈ ' ' :: set.chars.toList) : character ≠ '\n' := by
  rintro rfl
  cases set <;> exact absurd member (by decide)

namespace Canvas

variable {canvas : Canvas} {column row otherColumn otherRow : Nat}

theorem joined_ne_lineFeed (set : CharSet) (junction : Junction) (character : Char) :
    joined set junction character ≠ '\n' := by
  unfold joined
  split <;> exact CharSet.ne_lineFeed (Junction.toChar_mem set _)

/-! ### Single cells -/

/-- The character of a cell; there is none outside the grid. -/
def at? (canvas : Canvas) (column row : Nat) : Option Char :=
  canvas.rows[row]?.bind fun cells => cells[column]?

theorem at?_update (canvas : Canvas) (column row : Nat) (change : Char → Char)
    (otherColumn otherRow : Nat) :
    (canvas.update column row change).at? otherColumn otherRow =
      (canvas.at? otherColumn otherRow).map fun character =>
        if column = otherColumn ∧ row = otherRow then change character else character := by
  simp only [at?, update, Array.getElem?_modify]
  by_cases sameRow : row = otherRow
  · cases canvas.rows[otherRow]? with
    | none => simp [sameRow]
    | some cells =>
      by_cases sameColumn : column = otherColumn
      · simp [sameRow, sameColumn, Array.getElem?_modify]
      · simp [sameRow, sameColumn, Array.getElem?_modify]
  · simp [sameRow]

theorem at?_set (canvas : Canvas) (column row : Nat) (character : Char)
    (otherColumn otherRow : Nat) :
    (canvas.set column row character).at? otherColumn otherRow =
      (canvas.at? otherColumn otherRow).map fun old =>
        if column = otherColumn ∧ row = otherRow then character else old :=
  at?_update canvas column row _ otherColumn otherRow

theorem at?_join (canvas : Canvas) (column row : Nat) (junction : Junction)
    (otherColumn otherRow : Nat) :
    (canvas.join column row junction).at? otherColumn otherRow =
      (canvas.at? otherColumn otherRow).map fun old =>
        if column = otherColumn ∧ row = otherRow then joined canvas.charSet junction old
        else old :=
  at?_update canvas column row _ otherColumn otherRow

/-- What is joined into cells of other rows does not change a cell. -/
theorem at?_join_of_ne (different : row ≠ otherRow) (junction : Junction) :
    (canvas.join column row junction).at? otherColumn otherRow =
      canvas.at? otherColumn otherRow := by
  simp [at?_join, different]

/-! ### Lines -/

/-- A junction is joined into each of the listed cells. -/
theorem at?_foldl_join {cells : List Cell} (distinct : cells.Nodup) (canvas : Canvas)
    (junction : Junction) (otherColumn otherRow : Nat) :
    (cells.foldl (fun canvas cell => canvas.join cell.column cell.row junction) canvas).at?
        otherColumn otherRow =
      (canvas.at? otherColumn otherRow).map fun old =>
        if ⟨otherColumn, otherRow⟩ ∈ cells then joined canvas.charSet junction old else old := by
  induction cells generalizing canvas with
  | nil => simp
  | cons cell rest inductionHypothesis =>
    obtain ⟨absent, distinctRest⟩ := List.nodup_cons.mp distinct
    have here : (cell.column = otherColumn ∧ cell.row = otherRow) ↔
        ⟨otherColumn, otherRow⟩ = cell := by
      rw [← Cell.mk.injEq, eq_comm]
    rw [List.foldl_cons, inductionHypothesis distinctRest, at?_join, Option.map_map]
    congr 1
    funext old
    show (if _ ∈ rest then joined canvas.charSet junction _ else _) = _
    simp only [here, List.mem_cons]
    by_cases same : ⟨otherColumn, otherRow⟩ = cell
    · simp [same, absent]
    · simp [same]

/-- A vertical line is joined into each cell between its ends that is on the grid. -/
theorem at?_vertical (canvas : Canvas) (column top bottom otherColumn otherRow : Nat) :
    (canvas.vertical column top bottom).at? otherColumn otherRow =
      (canvas.at? otherColumn otherRow).map fun old =>
        if column = otherColumn ∧ top ≤ otherRow ∧ otherRow ≤ bottom ∧ otherRow < canvas.height
        then joined canvas.charSet .vertical old else old := by
  have cells : canvas.vertical column top bottom =
      ((List.range' top (min (bottom + 1) canvas.height - top)).map (Cell.mk column)).foldl
        (fun canvas cell => canvas.join cell.column cell.row .vertical) canvas := by
    rw [List.foldl_map, vertical]
  have different : Function.Injective (Cell.mk column) := fun _ _ same => (Cell.mk.inj same).2
  rw [cells, at?_foldl_join (List.Nodup.map different List.nodup_range')]
  congr 1
  funext old
  congr 2
  simp only [List.mem_map, List.mem_range'_1, Cell.mk.injEq, exists_eq_right_right]
  refine propext ?_
  omega

/-- A horizontal line is joined into each cell strictly between its ends that is on the grid. -/
theorem at?_horizontalBetween (canvas : Canvas) (row first second otherColumn otherRow : Nat) :
    (canvas.horizontalBetween row first second).at? otherColumn otherRow =
      (canvas.at? otherColumn otherRow).map fun old =>
        if row = otherRow ∧ min first second < otherColumn ∧ otherColumn < max first second ∧
          otherColumn < canvas.width
        then joined canvas.charSet .horizontal old else old := by
  have cells : canvas.horizontalBetween row first second =
      ((List.range' (min first second + 1) (min (max first second) canvas.width -
        (min first second + 1))).map fun column => Cell.mk column row).foldl
        (fun canvas cell => canvas.join cell.column cell.row .horizontal) canvas := by
    rw [List.foldl_map, horizontalBetween]
  have different : Function.Injective fun column => Cell.mk column row :=
    fun _ _ same => (Cell.mk.inj same).1
  rw [cells, at?_foldl_join (List.Nodup.map different List.nodup_range')]
  congr 1
  funext old
  congr 2
  simp only [List.mem_map, List.mem_range'_1, Cell.mk.injEq, and_assoc]
  refine propext ?_
  constructor
  · rintro ⟨column, low, high, rfl, rfl⟩
    omega
  · rintro ⟨rfl, low, high, inRow⟩
    exact ⟨otherColumn, by omega, by omega, rfl, rfl⟩

/-- A horizontal line changes cells of its row only. -/
theorem at?_horizontalBetween_of_ne (different : row ≠ otherRow) (first second : Nat) :
    (canvas.horizontalBetween row first second).at? otherColumn otherRow =
      canvas.at? otherColumn otherRow := by
  simp [at?_horizontalBetween, different]

/-- A text replaces the characters from its first cell to the right. -/
theorem at?_write (canvas : Canvas) (column row : Nat) (text : List Char)
    (otherColumn otherRow : Nat) :
    (canvas.write column row text).at? otherColumn otherRow =
      (canvas.at? otherColumn otherRow).map fun old =>
        if row = otherRow ∧ column ≤ otherColumn then (text[otherColumn - column]?).getD old
        else old := by
  induction text generalizing canvas column with
  | nil => simp [write]
  | cons character rest inductionHypothesis =>
    rw [write, inductionHypothesis, at?_set, Option.map_map]
    congr 1
    funext old
    simp only [Function.comp_apply]
    rcases Nat.lt_trichotomy column otherColumn with before | rfl | beyond
    · have next : otherColumn - column = otherColumn - (column + 1) + 1 := by omega
      simp [next, Nat.ne_of_lt before, Nat.succ_le_iff.mpr before, Nat.le_of_lt before]
    · rw [if_neg fun both => Nat.not_succ_le_self column both.2]
      simp
    · simp [Nat.ne_of_gt beyond, Nat.not_le.mpr beyond,
        Nat.not_le.mpr (Nat.lt_succ_of_lt beyond)]

/-! ### Whole grids -/

/-- A grid of a given size, for a given set of characters. It has every cell within its size, and
no line feed. -/
structure Fits (width height : Nat) (charSet : CharSet) (canvas : Canvas) : Prop where
  sameWidth : canvas.width = width
  sameHeight : canvas.height = height
  sameSet : canvas.charSet = charSet
  cells : ∀ column row, column < width → row < height → (canvas.at? column row).isSome
  clean : ∀ column row, canvas.at? column row ≠ some '\n'

variable {width height : Nat} {charSet : CharSet}

theorem at?_blank (width height : Nat) (charSet : CharSet) (column row : Nat) :
    (blank width height charSet).at? column row =
      if column < width ∧ row < height then some ' ' else none := by
  by_cases inColumn : row < height
  · by_cases inRow : column < width <;> simp [at?, blank, inRow, inColumn]
  · simp [at?, blank, inColumn]

theorem fits_blank (width height : Nat) (charSet : CharSet) :
    (blank width height charSet).Fits width height charSet := by
  refine ⟨rfl, rfl, rfl, fun column row inRow inColumn => ?_, fun column row => ?_⟩
  · rw [at?_blank, if_pos ⟨inRow, inColumn⟩]
    rfl
  · rw [at?_blank]
    split <;> simp

theorem Fits.update (fits : canvas.Fits width height charSet) (column row : Nat)
    {change : Char → Char} (clean : ∀ character, change character ≠ '\n') :
    (canvas.update column row change).Fits width height charSet := by
  refine ⟨fits.sameWidth, fits.sameHeight, fits.sameSet,
    fun otherColumn otherRow inRow inColumn => ?_, fun otherColumn otherRow found => ?_⟩
  · rw [at?_update, Option.isSome_map]
    exact fits.cells otherColumn otherRow inRow inColumn
  · rw [at?_update] at found
    obtain ⟨old, here, same⟩ := Option.map_eq_some_iff.mp found
    split at same
    · exact clean old same
    · exact fits.clean otherColumn otherRow (same ▸ here)

theorem Fits.set (fits : canvas.Fits width height charSet) (column row : Nat) {character : Char}
    (clean : character ≠ '\n') : (canvas.set column row character).Fits width height charSet :=
  fits.update column row fun _ => clean

theorem Fits.join (fits : canvas.Fits width height charSet) (column row : Nat)
    (junction : Junction) : (canvas.join column row junction).Fits width height charSet :=
  fits.update column row (joined_ne_lineFeed canvas.charSet junction)

theorem Fits.foldl {α : Type} {draw : Canvas → α → Canvas} {items : List α}
    (each : ∀ item ∈ items, ∀ canvas, Fits width height charSet canvas →
      (draw canvas item).Fits width height charSet)
    (fits : canvas.Fits width height charSet) :
    (items.foldl draw canvas).Fits width height charSet := by
  induction items generalizing canvas with
  | nil => exact fits
  | cons item rest inductionHypothesis =>
    obtain ⟨here, later⟩ := List.forall_mem_cons.mp each
    exact inductionHypothesis later (here canvas fits)

theorem Fits.horizontalBetween (fits : canvas.Fits width height charSet)
    (row first second : Nat) :
    (canvas.horizontalBetween row first second).Fits width height charSet :=
  fits.foldl fun column _ _ fits => fits.join column row .horizontal

theorem Fits.vertical (fits : canvas.Fits width height charSet) (column top bottom : Nat) :
    (canvas.vertical column top bottom).Fits width height charSet :=
  fits.foldl fun row _ _ fits => fits.join column row .vertical

theorem Fits.write (fits : canvas.Fits width height charSet) (column row : Nat)
    {text : List Char} (clean : '\n' ∉ text) :
    (canvas.write column row text).Fits width height charSet := by
  induction text generalizing canvas column with
  | nil => exact fits
  | cons character rest inductionHypothesis =>
    obtain ⟨here, later⟩ := not_or.mp (List.mem_cons.not.mp clean)
    exact inductionHypothesis (fits.set column row (Ne.symm here)) (column + 1) later

/-! ### Edges -/

variable {upper lower : Cell}

/-- What is drawn of an edge before it comes down: an arm, the bus line, and a turn. -/
theorem Fits.across (fits : canvas.Fits width height charSet) (upper lower : Cell)
    (start turn : Junction) :
    (((canvas.join upper.column (upper.row + 1) start).horizontalBetween (upper.row + 1)
      upper.column lower.column).join lower.column (upper.row + 1) turn).Fits
      width height charSet :=
  ((fits.join _ _ start).horizontalBetween _ _ _).join _ _ turn

theorem at?_across (different : upper.row + 1 ≠ otherRow) (canvas : Canvas) (start turn : Junction)
    (otherColumn : Nat) :
    (((canvas.join upper.column (upper.row + 1) start).horizontalBetween (upper.row + 1)
      upper.column lower.column).join lower.column (upper.row + 1) turn).at?
      otherColumn otherRow = canvas.at? otherColumn otherRow := by
  rw [at?_join_of_ne different, at?_horizontalBetween_of_ne different, at?_join_of_ne different]

theorem Fits.wire (fits : canvas.Fits width height charSet) (upper lower : Cell) :
    (canvas.wire upper lower).Fits width height charSet := by
  have across := fits.across upper lower
  unfold Canvas.wire
  simp only
  split
  · exact fits
  · split
    · exact ((across _ _).vertical _ _ _).set _ _
        (CharSet.ne_lineFeed (List.mem_cons_of_mem _ (LineChars.arrowDown_mem _)))
    · exact across _ _

/-- Outside its bus line, an edge over two lines or more shows in the column of its lower end only:
there it comes down as a vertical line, and ends in an arrowhead. -/
theorem Fits.at?_wire (fits : canvas.Fits width height charSet) (long : upper.row + 3 ≤ lower.row)
    (different : upper.row + 1 ≠ otherRow) (inColumn : otherRow < height) (otherColumn : Nat) :
    (canvas.wire upper lower).at? otherColumn otherRow =
      (canvas.at? otherColumn otherRow).map fun old =>
        if lower.column ≠ otherColumn then old
        else if otherRow + 1 = lower.row then charSet.chars.arrowDown
        else if upper.row + 2 ≤ otherRow ∧ otherRow + 1 < lower.row then
          joined charSet .vertical old
        else old := by
  have across := fits.across upper lower
  have room : ¬ lower.row ≤ upper.row + 1 := by omega
  have falls : upper.row + 1 < lower.row - 1 := by omega
  unfold Canvas.wire
  simp only
  rw [if_neg room, if_pos falls, at?_set, at?_vertical, at?_across different, (across _ _).sameSet,
    (across _ _).sameHeight, Option.map_map]
  congr 1
  funext old
  simp only [Function.comp_apply]
  by_cases sameColumn : lower.column = otherColumn
  · have tip : (otherRow + 1 = lower.row) ↔ lower.row - 1 = otherRow := by omega
    have shaft : (upper.row + 2 ≤ otherRow ∧ otherRow + 1 < lower.row) ↔
        upper.row + 1 + 1 ≤ otherRow ∧ otherRow ≤ lower.row - 2 := by omega
    simp [sameColumn, tip, shaft, inColumn]
  · simp [sameColumn]

end Canvas

end ExprDiagram
