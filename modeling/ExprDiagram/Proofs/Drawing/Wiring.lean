/-
This file shows that lines on a grid merge whatever the order in which they are drawn. A cell keeps
only a character, from which the next line has to make out what runs there already. In the box set a
junction of no arm or at least two can be made out exactly, and lines that leave no arm alone leave
such junctions only. In the plain set neither a single arm nor a junction of two directions can be
made out; but a single arm is drawn like the whole line, and a plus sign stays a plus sign, so
nothing that the set could show is lost. Therefore the grid is at every time the picture of the arms
of all that has been drawn, and the arms of many lines together know no order and no number.
-/

import ExprDiagram.Proofs.Drawing.Buses

namespace ExprDiagram

/-! ### Arms of many junctions -/

namespace Junction

theorem foldl_merge (junction : Junction) (junctions : List Junction) :
    junctions.foldl merge junction =
      ⟨junction.up || junctions.any up, junction.down || junctions.any down,
        junction.left || junctions.any left, junction.right || junctions.any right⟩ := by
  induction junctions generalizing junction with
  | nil => simp only [List.foldl_nil, List.any_nil, Bool.or_false]
  | cons first rest inductionHypothesis =>
    simp only [List.foldl_cons, inductionHypothesis, merge, List.any_cons, Bool.or_assoc]

/-- Some junctions together have the arms that any of them has. -/
theorem union_eq_any (junctions : List Junction) :
    union junctions =
      ⟨junctions.any up, junctions.any down, junctions.any left, junctions.any right⟩ := by
  rw [union, foldl_merge, empty]
  simp only [Bool.false_or]

theorem merge_self (junction : Junction) : junction.merge junction = junction := by
  simp only [merge, Bool.or_self]

/-- The arms of all junctions together depend only on which junctions there are. -/
theorem union_congr {junctions others : List Junction}
    (same : ∀ junction, junction ∈ junctions ↔ junction ∈ others) :
    union junctions = union others := by
  have anyArm : ∀ arm : Junction → Bool, junctions.any arm = others.any arm := fun arm => by
    rw [Bool.eq_iff_iff, List.any_eq_true, List.any_eq_true]
    exact exists_congr fun junction => and_congr_left fun _ => same junction
  rw [union_eq_any, union_eq_any, anyArm, anyArm, anyArm, anyArm]

end Junction

/-! ### Pictures of arms -/

namespace Canvas

/-- A character of the plain set merges with whatever is drawn over it as if all its arms could be
made out. -/
theorem joined_toChar_plain (junction other : Junction) :
    joined .plain other (junction.toChar .plain) = (junction.merge other).toChar .plain := by
  obtain ⟨up, down, left, right⟩ := junction
  obtain ⟨upOther, downOther, leftOther, rightOther⟩ := other
  cases up <;> cases down <;> cases left <;> cases right <;>
    revert upOther downOther leftOther rightOther <;> decide

/-- The junction can be made out from its character as far as the set can show it. -/
def Readable (charSet : CharSet) (junction : Junction) : Prop :=
  charSet = .box → junction.Whole

instance (charSet : CharSet) (junction : Junction) : Decidable (Readable charSet junction) :=
  inferInstanceAs <| Decidable <| charSet = .box → junction.Whole

variable {charSet : CharSet} {junction other : Junction} {width height : Nat}
variable {arms otherArms : Cell → Junction}

theorem Readable.merge (readable : Readable charSet junction)
    (readableOther : Readable charSet other) : Readable charSet (junction.merge other) :=
  fun box => (readable box).merge (readableOther box)

theorem readable_ite (readable : Readable charSet junction) (here : Prop) [Decidable here] :
    Readable charSet (if here then junction else .empty) := by
  split
  · exact readable
  · exact fun _ => by decide

theorem Readable.joined (readable : Readable charSet junction) (other : Junction) :
    joined charSet other (junction.toChar charSet) = (junction.merge other).toChar charSet := by
  cases charSet with
  | box => exact joined_toChar (readable rfl) .box other
  | plain => exact joined_toChar_plain junction other

/-- The grid on which each cell shows the arms that it has. -/
def picture (width height : Nat) (charSet : CharSet) (arms : Cell → Junction) : Canvas :=
  ⟨width, height, charSet, Array.ofFn fun row : Fin height =>
    Array.ofFn fun column : Fin width => (arms ⟨column, row⟩).toChar charSet⟩

theorem blank_eq_picture (width height : Nat) (charSet : CharSet) :
    blank width height charSet = picture width height charSet fun _ => .empty := by
  rw [blank, picture]
  congr 1
  refine Array.ext_getElem? fun row => ?_
  by_cases inColumn : row < height
  · simp only [Array.getElem?_replicate, Array.getElem?_ofFn, inColumn, if_true, dite_true]
    congr 1
    refine Array.ext_getElem? fun column => ?_
    simp only [Array.getElem?_replicate, Array.getElem?_ofFn]
    rfl
  · simp only [Array.getElem?_replicate, Array.getElem?_ofFn, inColumn, if_false, dite_false]

/-- Arms outside the grid are not shown. -/
theorem picture_congr (same : ∀ column row, column < width → row < height →
      arms ⟨column, row⟩ = otherArms ⟨column, row⟩) :
    picture width height charSet arms = picture width height charSet otherArms := by
  rw [picture, picture]
  congr 1
  congr 1
  funext row
  congr 1
  funext column
  rw [same column row column.isLt row.isLt]

theorem get_picture (width height : Nat) (charSet : CharSet) (arms : Cell → Junction)
    (column row : Nat) :
    (picture width height charSet arms).get column row =
      if column < width ∧ row < height then (arms ⟨column, row⟩).toChar charSet else ' ' := by
  by_cases inColumn : row < height
  · by_cases inRow : column < width
    · simp [get, picture, inColumn, inRow]
    · simp [get, picture, inColumn, inRow]
  · simp [get, picture, inColumn]

/-- Drawing a junction over a cell adds its arms to those of the cell. -/
theorem join_picture (readable : ∀ cell, Readable charSet (arms cell)) (cell : Cell)
    (junction : Junction) :
    (picture width height charSet arms).join cell.column cell.row junction =
      picture width height charSet fun other =>
        (arms other).merge (if other = cell then junction else .empty) := by
  obtain ⟨column, row⟩ := cell
  rw [join, update, picture, picture]
  congr 1
  refine Array.ext_getElem? fun otherRow => ?_
  simp only [Array.getElem?_modify, Array.getElem?_ofFn]
  by_cases inColumn : otherRow < height
  · by_cases sameRow : row = otherRow
    · subst sameRow
      simp only [inColumn, dite_true, if_true, Option.map_some]
      congr 1
      refine Array.ext_getElem? fun otherColumn => ?_
      simp only [Array.getElem?_modify, Array.getElem?_ofFn]
      by_cases inRow : otherColumn < width
      · by_cases sameColumn : column = otherColumn
        · subst sameColumn
          simp only [inRow, dite_true, if_true, Option.map_some, (readable _).joined]
        · simp only [inRow, dite_true, sameColumn, if_false, Cell.mk.injEq, Ne.symm sameColumn,
            false_and, Junction.merge_empty]
      · simp only [inRow, dite_false, Option.map_none, ite_self]
    · simp only [inColumn, dite_true, sameRow, if_false, Cell.mk.injEq, Ne.symm sameRow, and_false,
        Junction.merge_empty]
  · simp only [inColumn, dite_false, Option.map_none, ite_self]

/-- Drawing a junction over some cells, be it once or several times, adds its arms to those of each
cell. -/
theorem foldl_join_picture (readable : ∀ cell, Readable charSet (arms cell))
    (readableHere : Readable charSet junction) (cells : List Cell) :
    cells.foldl (fun canvas cell => canvas.join cell.column cell.row junction)
        (picture width height charSet arms) =
      picture width height charSet fun cell =>
        (arms cell).merge (if cell ∈ cells then junction else .empty) := by
  induction cells generalizing arms with
  | nil => simp only [List.foldl_nil, List.not_mem_nil, if_false, Junction.merge_empty]
  | cons first rest inductionHypothesis =>
    rw [List.foldl_cons, join_picture readable, inductionHypothesis fun cell =>
      (readable cell).merge (readable_ite readableHere _)]
    congr 1
    funext cell
    rw [Junction.merge_assoc]
    by_cases here : cell = first
    · subst here
      by_cases again : cell ∈ rest
      · rw [if_pos rfl, if_pos again, if_pos List.mem_cons_self, Junction.merge_self]
      · rw [if_pos rfl, if_neg again, if_pos List.mem_cons_self, Junction.merge_empty]
    · simp only [here, List.mem_cons, false_or, if_false, Junction.empty_merge]

end Canvas

/-! ### Pieces of wiring -/

/-- A piece of wiring that is drawn in one go. -/
inductive Wiring where
  /-- A junction in a cell. -/
  | spot (cell : Cell) (junction : Junction)
  /-- A horizontal line in a row between two columns, without its ends. -/
  | across (row first second : Nat)
  /-- A vertical line in a column from one row down to another, with its ends. -/
  | down (column top bottom : Nat)
  deriving DecidableEq

namespace Wiring

/-- Draws the piece on a grid. -/
def draw (canvas : Canvas) : Wiring → Canvas
  | spot cell junction => canvas.join cell.column cell.row junction
  | across row first second => canvas.horizontalBetween row first second
  | down column top bottom => canvas.vertical column top bottom

/-- The arms that the piece has in a cell. -/
def arms (cell : Cell) : Wiring → Junction
  | spot other junction => if cell = other then junction else .empty
  | across row first second =>
    if cell.row = row ∧ min first second < cell.column ∧ cell.column < max first second then
      .horizontal
    else .empty
  | down column top bottom =>
    if cell.column = column ∧ top ≤ cell.row ∧ cell.row ≤ bottom then .vertical else .empty

/-- The arms that some pieces together have in a cell. -/
def armsOf (pieces : List Wiring) (cell : Cell) : Junction := .union (pieces.map (arms cell))

/-- The piece leaves no arm alone that the set could not show alone. -/
def Drawable (charSet : CharSet) : Wiring → Prop
  | spot _ junction => Canvas.Readable charSet junction
  | across _ _ _ => True
  | down _ _ _ => True

instance (charSet : CharSet) : ∀ piece : Wiring, Decidable (piece.Drawable charSet)
  | spot _ junction => inferInstanceAs <| Decidable <| Canvas.Readable charSet junction
  | across _ _ _ => .isTrue trivial
  | down _ _ _ => .isTrue trivial

/-- The piece with the ends of a horizontal line given in the other order. -/
def turned : Wiring → Wiring
  | across row first second => across row second first
  | piece => piece

variable {charSet : CharSet} {width height : Nat} {arms otherArms : Cell → Junction}
variable {piece : Wiring} {pieces others : List Wiring}

theorem arms_turned (piece : Wiring) (cell : Cell) : piece.turned.arms cell = piece.arms cell := by
  cases piece with
  | across row first second => simp only [turned, Wiring.arms, min_comm, max_comm]
  | spot => rfl
  | down => rfl

theorem Drawable.readable (drawable : piece.Drawable charSet) (cell : Cell) :
    Canvas.Readable charSet (piece.arms cell) := by
  cases piece with
  | spot => exact Canvas.readable_ite drawable _
  | across => exact Canvas.readable_ite (fun _ => by decide) _
  | down => exact Canvas.readable_ite (fun _ => by decide) _

/-- The cells of a grid that lie between two columns of a row. -/
theorem mem_across {column otherRow row first second : Nat} (inRow : column < width) :
    (⟨column, otherRow⟩ : Cell) ∈ (List.range' (min first second + 1)
        (min (max first second) width - (min first second + 1))).map (Cell.mk · row) ↔
      otherRow = row ∧ min first second < column ∧ column < max first second := by
  simp only [List.mem_map, List.mem_range'_1, Cell.mk.injEq]
  constructor
  · rintro ⟨_, bounds, rfl, rfl⟩
    omega
  · rintro ⟨rfl, bounds⟩
    exact ⟨column, by omega, rfl, rfl⟩

/-- The cells of a grid from one row of a column to another. -/
theorem mem_down {otherColumn column row top bottom : Nat} (inColumn : row < height) :
    (⟨otherColumn, row⟩ : Cell) ∈
        (List.range' top (min (bottom + 1) height - top)).map (Cell.mk column) ↔
      otherColumn = column ∧ top ≤ row ∧ row ≤ bottom := by
  simp only [List.mem_map, List.mem_range'_1, Cell.mk.injEq]
  constructor
  · rintro ⟨_, bounds, rfl, rfl⟩
    omega
  · rintro ⟨rfl, bounds⟩
    exact ⟨row, by omega, rfl, rfl⟩

/-- Drawing a piece adds its arms to those of each cell. -/
theorem Drawable.draw_picture (drawable : piece.Drawable charSet)
    (readable : ∀ cell, Canvas.Readable charSet (arms cell)) :
    piece.draw (Canvas.picture width height charSet arms) =
      Canvas.picture width height charSet fun cell => (arms cell).merge (piece.arms cell) := by
  cases piece with
  | spot cell junction => exact Canvas.join_picture readable cell junction
  | across row first second =>
    have cells : (across row first second).draw (Canvas.picture width height charSet arms) =
        ((List.range' (min first second + 1) (min (max first second) width -
          (min first second + 1))).map fun column => Cell.mk column row).foldl
          (fun canvas cell => canvas.join cell.column cell.row .horizontal)
          (Canvas.picture width height charSet arms) := by
      rw [List.foldl_map]
      rfl
    rw [cells, Canvas.foldl_join_picture readable fun _ => by decide]
    refine Canvas.picture_congr fun column otherRow inRow _ => ?_
    simp only [mem_across inRow, Wiring.arms]
  | down column top bottom =>
    have cells : (down column top bottom).draw (Canvas.picture width height charSet arms) =
        ((List.range' top (min (bottom + 1) height - top)).map (Cell.mk column)).foldl
          (fun canvas cell => canvas.join cell.column cell.row .vertical)
          (Canvas.picture width height charSet arms) := by
      rw [List.foldl_map]
      rfl
    rw [cells, Canvas.foldl_join_picture readable fun _ => by decide]
    refine Canvas.picture_congr fun otherColumn row _ inColumn => ?_
    simp only [mem_down inColumn, Wiring.arms]

theorem foldl_draw_picture (drawable : ∀ piece ∈ pieces, piece.Drawable charSet)
    (readable : ∀ cell, Canvas.Readable charSet (arms cell)) :
    pieces.foldl draw (Canvas.picture width height charSet arms) =
      Canvas.picture width height charSet fun cell =>
        (pieces.map (Wiring.arms cell)).foldl Junction.merge (arms cell) := by
  induction pieces generalizing arms with
  | nil => rfl
  | cons first rest inductionHypothesis =>
    obtain ⟨here, later⟩ := List.forall_mem_cons.mp drawable
    rw [List.foldl_cons, here.draw_picture readable, inductionHypothesis later fun cell =>
      (readable cell).merge (here.readable cell)]
    rfl

/-- On a blank grid, some pieces leave the picture of their arms. -/
theorem foldl_draw_blank (width height : Nat)
    (drawable : ∀ piece ∈ pieces, piece.Drawable charSet) :
    pieces.foldl draw (.blank width height charSet) =
      .picture width height charSet (armsOf pieces) := by
  rw [Canvas.blank_eq_picture, foldl_draw_picture drawable fun _ _ => by decide]
  rfl

/-- Each piece of the first list is one of the second, up to the order of its ends. -/
def Covered (pieces others : List Wiring) : Prop :=
  ∀ piece ∈ pieces, ∃ other ∈ others, piece = other ∨ piece = other.turned

instance (pieces others : List Wiring) : Decidable (Covered pieces others) :=
  inferInstanceAs <| Decidable <|
    ∀ piece ∈ pieces, ∃ other ∈ others, piece = other ∨ piece = other.turned

theorem Covered.mem_arms (covered : Covered pieces others) {cell : Cell} {junction : Junction}
    (member : junction ∈ pieces.map (Wiring.arms cell)) :
    junction ∈ others.map (Wiring.arms cell) := by
  obtain ⟨piece, inPieces, rfl⟩ := List.mem_map.mp member
  obtain ⟨other, inOthers, rfl | rfl⟩ := covered piece inPieces
  · exact List.mem_map_of_mem inOthers
  · rw [arms_turned]
    exact List.mem_map_of_mem inOthers

theorem armsOf_eq_of_covered (covered : Covered pieces others) (covers : Covered others pieces) :
    armsOf pieces = armsOf others :=
  funext fun _ => Junction.union_congr fun _ => ⟨covered.mem_arms, covers.mem_arms⟩

theorem Covered.drawable (covers : Covered others pieces)
    (drawable : ∀ piece ∈ pieces, piece.Drawable charSet) :
    ∀ other ∈ others, other.Drawable charSet := by
  intro other inOthers
  obtain ⟨piece, inPieces, rfl | rfl⟩ := covers other inOthers
  · exact drawable _ inPieces
  · have here := drawable piece inPieces
    cases piece with
    | spot => exact here
    | across => trivial
    | down => trivial

end Wiring

/-- Lines merge whatever their order. On a blank grid of any size, drawing any pieces of wiring,
inside the grid or beside it, leaves in each cell the character of all arms that the pieces have
there, and changes nothing else; in the box set no arm of a junction may be alone. Any other pieces
that are the same ones, in another order, drawn more or fewer times or with their ends exchanged,
leave the same grid. -/
theorem wiring_merged (width height : Nat) (charSet : CharSet) (pieces : List Wiring)
    (drawable : ∀ piece ∈ pieces, piece.Drawable charSet) :
    pieces.foldl Wiring.draw (.blank width height charSet) =
        .picture width height charSet (Wiring.armsOf pieces) ∧
      (∀ column row, column < width → row < height →
        (pieces.foldl Wiring.draw (.blank width height charSet)).get column row =
          (Wiring.armsOf pieces ⟨column, row⟩).toChar charSet) ∧
      ∀ others, Wiring.Covered others pieces → Wiring.Covered pieces others →
        others.foldl Wiring.draw (.blank width height charSet) =
          pieces.foldl Wiring.draw (.blank width height charSet) := by
  have drawn := Wiring.foldl_draw_blank width height drawable
  refine ⟨drawn, fun column row inRow inColumn => ?_, fun others covers covered => ?_⟩
  · rw [drawn, Canvas.get_picture, if_pos ⟨inRow, inColumn⟩]
  · rw [drawn, Wiring.foldl_draw_blank width height (covers.drawable drawable),
      Wiring.armsOf_eq_of_covered covers covered]

/-- Lines that cross and meet, a junction beside the grid among them. -/
def crossing : List Wiring :=
  [.across 1 0 3, .down 1 0 7, .spot ⟨2, 1⟩ ⟨true, false, true, false⟩, .spot ⟨9, 9⟩ .vertical]

/-- The same lines in another order, one of them turned round and one drawn twice. -/
def crossingAgain : List Wiring :=
  [.spot ⟨9, 9⟩ .vertical, .down 1 0 7, .spot ⟨2, 1⟩ ⟨true, false, true, false⟩, .across 1 3 0,
    .down 1 0 7]

theorem wiring_merged_crossing :
    (∀ piece ∈ crossing, piece.Drawable .box) ∧ Wiring.Covered crossingAgain crossing ∧
      Wiring.Covered crossing crossingAgain ∧
      crossing.foldl Wiring.draw (.blank 4 3 .box) =
        .picture 4 3 .box (Wiring.armsOf crossing) ∧
      (crossing.foldl Wiring.draw (.blank 4 3 .box)).get 1 1 = '┼' ∧
      (crossing.foldl Wiring.draw (.blank 4 3 .box)).get 2 1 = '┴' ∧
      crossingAgain.foldl Wiring.draw (.blank 4 3 .box) =
        crossing.foldl Wiring.draw (.blank 4 3 .box) := by
  have covers : Wiring.Covered crossingAgain crossing := by decide
  have covered : Wiring.Covered crossing crossingAgain := by decide
  have drawable : ∀ piece ∈ crossing, piece.Drawable .box := by decide
  obtain ⟨drawn, shown, same⟩ := wiring_merged 4 3 .box crossing drawable
  exact ⟨drawable, covers, covered, drawn,
    (shown 1 1 (by decide) (by decide)).trans (by decide),
    (shown 2 1 (by decide) (by decide)).trans (by decide), same crossingAgain covers covered⟩

end ExprDiagram
