/-
This file shows that the bus lines of a drawing show every edge that runs along them or across them,
in whatever order the edges are drawn. A cell keeps only a character, and the next edge has to make
out from it what has been drawn there. That loses nothing where a cell has no arm or at least two:
the box set has a character of its own for each such junction, and in the plain set a plus sign, once
it is drawn, stays one. A single arm would be lost, since it is drawn as a whole line; but an edge
leaves two arms in every cell that it touches, so none is left alone when an edge is complete.
Arrowheads and labels take the place of what was drawn before them, and they stand in other rows.
-/

import ExprDiagram.Proofs.Drawing.Labels

namespace ExprDiagram

/-! ### Junctions in cells -/

namespace Junction

/-- The number of arms. -/
def count (junction : Junction) : Nat :=
  junction.up.toNat + junction.down.toNat + junction.left.toNat + junction.right.toNat

/-- No arm stands alone: there is none, or there are two or more. -/
def Whole (junction : Junction) : Prop := junction.count ≠ 1

instance (junction : Junction) : Decidable junction.Whole :=
  inferInstanceAs <| Decidable <| junction.count ≠ 1

/-- All arms of some junctions. -/
def union (junctions : List Junction) : Junction := junctions.foldl merge empty

variable {first second : Junction}

theorem merge_empty (junction : Junction) : junction.merge empty = junction := by
  simp [merge, empty]

theorem empty_merge (junction : Junction) : empty.merge junction = junction := by
  simp [merge, empty]

theorem merge_assoc (junction first second : Junction) :
    (junction.merge first).merge second = junction.merge (first.merge second) := by
  simp only [merge, Bool.or_assoc]

theorem merge_right_comm (junction first second : Junction) :
    (junction.merge first).merge second = (junction.merge second).merge first := by
  simp only [merge, Bool.or_right_comm]

/-- The arms of all junctions together do not depend on their order. -/
theorem union_perm {junctions others : List Junction} (same : junctions.Perm others) :
    union junctions = union others :=
  same.foldl_eq' (fun first _ second _ junction => merge_right_comm junction first second) empty

theorem Whole.merge (whole : first.Whole) (wholeSecond : second.Whole) :
    (first.merge second).Whole := by
  obtain ⟨up, down, left, right⟩ := first
  obtain ⟨upSecond, downSecond, leftSecond, rightSecond⟩ := second
  revert whole wholeSecond
  cases up <;> cases down <;> cases left <;> cases right <;> revert upSecond downSecond leftSecond
    rightSecond <;> decide

end Junction

/-- A junction is shown as a blank or as a character that is not white space. -/
theorem Junction.toChar_visible (charSet : CharSet) (junction : Junction) :
    junction.toChar charSet = ' ' ∨ ¬ isWhiteSpace (junction.toChar charSet) := by
  obtain ⟨up, down, left, right⟩ := junction
  cases charSet <;> cases up <;> cases down <;> cases left <;> cases right <;> decide

/-- An arm up or down and one to the side are two. -/
theorem Junction.whole_turn {distance : Int} (aside : distance ≠ 0) (up : Bool) :
    (Junction.merge ⟨up, !up, false, false⟩ (.toward distance)).Whole := by
  rcases lt_or_gt_of_ne aside with left | right
  · have notRight : ¬ 0 < distance := by omega
    simp only [toward, left, notRight, merge]
    cases up <;> decide
  · have notLeft : ¬ distance < 0 := by omega
    simp only [toward, notLeft, right, merge]
    cases up <;> decide

namespace Canvas

/-- What is drawn over a whole junction merges with it. -/
theorem joined_toChar {junction : Junction} (whole : junction.Whole) (charSet : CharSet)
    (other : Junction) :
    joined charSet other (junction.toChar charSet) = (junction.merge other).toChar charSet := by
  obtain ⟨up, down, left, right⟩ := junction
  obtain ⟨upOther, downOther, leftOther, rightOther⟩ := other
  revert whole
  cases charSet <;> cases up <;> cases down <;> cases left <;> cases right <;>
    revert upOther downOther leftOther rightOther <;> decide

theorem ite_joined_toChar {junction : Junction} (whole : junction.Whole) (charSet : CharSet)
    (other : Junction) (here : Prop) [Decidable here] :
    (if here then joined charSet other (junction.toChar charSet) else junction.toChar charSet) =
      (junction.merge (if here then other else .empty)).toChar charSet := by
  split
  · exact joined_toChar whole charSet other
  · rw [Junction.merge_empty]

/-- An arm upward and then one downward make a vertical line. -/
theorem joined_joined {junction : Junction} (whole : junction.Whole) (charSet : CharSet) :
    joined charSet ⟨false, true, false, false⟩
        (joined charSet ⟨true, false, false, false⟩ (junction.toChar charSet)) =
      (junction.merge .vertical).toChar charSet := by
  obtain ⟨up, down, left, right⟩ := junction
  revert whole
  cases charSet <;> cases up <;> cases down <;> cases left <;> cases right <;> decide

end Canvas

/-! ### Arms of an edge -/

/-- The arms that the edge between two cells has in a cell: where it leaves the upper cell, one up
and one toward the lower cell; along its bus line, one to either side; where it turns down, one
toward the upper cell and one down; and where it falls, one up and one down. -/
def Cell.arms (upper lower cell : Cell) : Junction :=
  let bus := upper.row + 1
  let distance : Int := lower.column - upper.column
  let start : Junction :=
    if cell = ⟨upper.column, bus⟩ then .merge ⟨true, false, false, false⟩ (.toward distance)
    else .empty
  let along : Junction :=
    if cell.row = bus ∧ min upper.column lower.column < cell.column ∧
      cell.column < max upper.column lower.column then .horizontal
    else .empty
  let turn : Junction :=
    if cell = ⟨lower.column, bus⟩ then .merge ⟨false, true, false, false⟩ (.toward (-distance))
    else .empty
  let fall : Junction :=
    if cell.column = lower.column ∧ bus < cell.row ∧ cell.row + 1 < lower.row then .vertical
    else .empty
  .union [start, along, turn, fall]

namespace Cell

/-- In another row, an edge has arms only where it falls. -/
theorem arms_of_ne {upper lower cell : Cell} (different : cell.row ≠ upper.row + 1) :
    upper.arms lower cell =
      if cell.column = lower.column ∧ upper.row + 1 < cell.row ∧ cell.row + 1 < lower.row
      then .vertical else .empty := by
  have elsewhere : ∀ column, cell ≠ ⟨column, upper.row + 1⟩ := by
    rintro column rfl
    exact different rfl
  simp only [arms, elsewhere, different, false_and, if_false, Junction.union, List.foldl_cons,
    List.foldl_nil, Junction.empty_merge]

/-- In the row of its bus line, an edge has no arms where it falls. -/
theorem arms_bus (upper lower : Cell) (column : Nat) :
    upper.arms lower ⟨column, upper.row + 1⟩ =
      ((Junction.merge
        (if upper.column = column then
          .merge ⟨true, false, false, false⟩ (.toward (lower.column - upper.column))
        else .empty)
        (if min upper.column lower.column < column ∧ column < max upper.column lower.column then
          .horizontal
        else .empty)).merge
        (if lower.column = column then
          .merge ⟨false, true, false, false⟩ (.toward (-(lower.column - upper.column)))
        else .empty)) := by
  simp only [arms, Cell.mk.injEq, and_true, true_and, Nat.lt_irrefl, and_false, false_and, if_false,
    Junction.union, List.foldl_cons, List.foldl_nil, Junction.empty_merge, Junction.merge_empty,
    eq_comm (a := column)]

/-- An edge has arms only above its lower cell and not beyond the columns of its two cells. -/
theorem arms_within {upper lower cell : Cell} (room : upper.row + 1 < lower.row)
    (touched : upper.arms lower cell ≠ .empty) :
    cell.column ≤ max upper.column lower.column ∧ cell.row < lower.row := by
  by_contra outside
  have notStart : cell ≠ ⟨upper.column, upper.row + 1⟩ := by
    rintro rfl
    exact outside ⟨Nat.le_max_left _ _, room⟩
  have notTurn : cell ≠ ⟨lower.column, upper.row + 1⟩ := by
    rintro rfl
    exact outside ⟨Nat.le_max_right _ _, room⟩
  have notAlong : ¬ (cell.row = upper.row + 1 ∧ min upper.column lower.column < cell.column ∧
      cell.column < max upper.column lower.column) := fun ⟨bus, _, between⟩ =>
    outside ⟨between.le, bus ▸ room⟩
  have notFall : ¬ (cell.column = lower.column ∧ upper.row + 1 < cell.row ∧
      cell.row + 1 < lower.row) := fun ⟨below, _, high⟩ =>
    outside ⟨below ▸ Nat.le_max_right _ _, Nat.lt_of_succ_lt high⟩
  refine touched ?_
  simp only [arms, if_neg notStart, if_neg notAlong, if_neg notTurn, if_neg notFall]
  rfl

end Cell

namespace Canvas

variable {canvas : Canvas} {width height : Nat} {charSet : CharSet} {upper lower cell : Cell}
variable {junction : Junction}

/-- In the row of its bus line, an edge is drawn from the upper cell to the lower one. -/
theorem Fits.at?_wire_bus (fits : canvas.Fits width height charSet)
    (long : upper.row + 3 ≤ lower.row) {column : Nat} (inRow : column < width) :
    (canvas.wire upper lower).at? column (upper.row + 1) =
      (canvas.at? column (upper.row + 1)).map fun old =>
        let distance : Int := lower.column - upper.column
        let started := if upper.column = column then
          joined charSet (.merge ⟨true, false, false, false⟩ (.toward distance)) old else old
        let passed := if min upper.column lower.column < column ∧
          column < max upper.column lower.column then joined charSet .horizontal started
          else started
        if lower.column = column then
          joined charSet (.merge ⟨false, true, false, false⟩ (.toward (-distance))) passed
        else passed := by
  have room : ¬ lower.row ≤ upper.row + 1 := by omega
  have falls : upper.row + 1 < lower.row - 1 := by omega
  have noTip : lower.row - 1 ≠ upper.row + 1 := by omega
  have noShaft : ¬ upper.row + 1 + 1 ≤ upper.row + 1 := by omega
  have startFits := fits.join upper.column (upper.row + 1)
    (.merge ⟨true, false, false, false⟩ (.toward (lower.column - upper.column)))
  have passFits := startFits.horizontalBetween (upper.row + 1) upper.column lower.column
  unfold Canvas.wire
  simp only
  rw [if_neg room, if_pos falls, at?_set, at?_vertical, at?_join, passFits.sameSet,
    at?_horizontalBetween, startFits.sameSet, startFits.sameWidth, at?_join, fits.sameSet]
  simp only [Option.map_map, noTip, noShaft, and_false, false_and, and_true, true_and, if_false,
    inRow]
  rfl

/-- The cell shows a junction of no arm or at least two. -/
structure Shows (charSet : CharSet) (cell : Cell) (junction : Junction) (canvas : Canvas) :
    Prop where
  shown : canvas.at? cell.column cell.row = some (junction.toChar charSet)
  whole : junction.Whole

/-- In a cell of its bus line, an edge adds its arms to those that are there. -/
theorem Shows.wire_bus {column : Nat}
    (shows : canvas.Shows charSet ⟨column, upper.row + 1⟩ junction)
    (fits : canvas.Fits width height charSet) (long : upper.row + 3 ≤ lower.row)
    (inRow : column < width) :
    (canvas.wire upper lower).Shows charSet ⟨column, upper.row + 1⟩
      (junction.merge (upper.arms lower ⟨column, upper.row + 1⟩)) := by
  have drawn := fits.at?_wire_bus long inRow
  rw [shows.shown, Option.map_some] at drawn
  by_cases vertical : upper.column = column ∧ lower.column = column
  · -- Both ends of the bus line are the cell, which gets an arm up and then one down.
    obtain ⟨rfl, straight⟩ := vertical
    have arms : upper.arms lower ⟨upper.column, upper.row + 1⟩ = .vertical := by
      rw [Cell.arms_bus]
      simp [straight, Junction.toward, Junction.merge, Junction.empty, Junction.vertical]
    refine ⟨drawn.trans (congrArg some ?_), shows.whole.merge (arms ▸ by decide)⟩
    rw [arms, ← joined_joined shows.whole charSet]
    simp [straight, Junction.toward, Junction.merge]
  · -- After each of the three steps, what has been drawn is whole.
    have start : (if upper.column = column then
        Junction.merge ⟨true, false, false, false⟩ (.toward (lower.column - upper.column))
        else .empty).Whole := by
      split
      · exact Junction.whole_turn (by omega) true
      · decide
    have along : (if min upper.column lower.column < column ∧
        column < max upper.column lower.column then Junction.horizontal else .empty).Whole := by
      split <;> decide
    have turn : (if lower.column = column then
        Junction.merge ⟨false, true, false, false⟩ (.toward (-(lower.column - upper.column)))
        else .empty).Whole := by
      split
      · exact Junction.whole_turn (by omega) false
      · decide
    refine ⟨drawn.trans (congrArg some ?_), ?_⟩
    · simp only
      rw [ite_joined_toChar shows.whole, ite_joined_toChar (shows.whole.merge start),
        ite_joined_toChar ((shows.whole.merge start).merge along), Cell.arms_bus,
        Junction.merge_assoc, Junction.merge_assoc, Junction.merge_assoc]
    · rw [Cell.arms_bus]
      exact shows.whole.merge ((start.merge along).merge turn)

/-- In a cell where it leaves no arrowhead, an edge adds its arms to those that are there. -/
theorem Shows.wire (shows : canvas.Shows charSet cell junction)
    (fits : canvas.Fits width height charSet) (long : upper.row + 3 ≤ lower.row)
    (inRow : cell.column < width) (inColumn : cell.row < height)
    (noTip : cell.row + 1 ≠ lower.row) :
    (canvas.wire upper lower).Shows charSet cell (junction.merge (upper.arms lower cell)) := by
  obtain ⟨column, row⟩ := cell
  by_cases bus : row = upper.row + 1
  · subst bus
    exact shows.wire_bus fits long inRow
  · have drawn := fits.at?_wire long (Ne.symm bus) inColumn column
    rw [shows.shown, Option.map_some] at drawn
    have falls : (column = lower.column ∧ upper.row + 1 < row ∧ row + 1 < lower.row) ↔
        lower.column = column ∧ upper.row + 2 ≤ row ∧ row + 1 < lower.row := by
      rw [eq_comm, Nat.lt_iff_add_one_le]
    rw [Cell.arms_of_ne bus]
    refine ⟨drawn.trans (congrArg some ?_), shows.whole.merge (by split <;> decide)⟩
    rw [← ite_joined_toChar shows.whole]
    simp only [falls]
    by_cases sameColumn : lower.column = column
    · simp only [sameColumn, ne_eq, not_true_eq_false, if_false, noTip, true_and]
    · simp only [sameColumn, ne_eq, not_false_eq_true, if_true, false_and, if_false]

end Canvas

/-! ### Edges of a layout -/

namespace Layout

section

variable {α : Type} [Coordinate α] {layout : Layout α} {style : ChartStyle} {cell : Cell}
variable {edges : List (Nat × Nat × Nat)}

/-- The arms that an edge of the layout has in a cell of the drawing. -/
def edgeArms (style : ChartStyle) (layout : Layout α) (cell : Cell) (edge : Nat × Nat × Nat) :
    Junction :=
  (layout.cellAt style edge.1).arms (layout.cellAt style edge.2.1) cell

/-- The arms that all edges of the layout together have in a cell of the drawing. -/
def arms (style : ChartStyle) (layout : Layout α) (cell : Cell) : Junction :=
  .union (layout.edges.map (layout.edgeArms style cell))

/-- The drawing of a layout when the edges are drawn in the given order. -/
def canvasOf? (style : ChartStyle) (layout : Layout α) (edges : List (Nat × Nat × Nat)) :
    Option Canvas := do
  let chart := Chart.ofLayout style layout
  let wired ← edges.foldlM (fun canvas (upper, lower, _) => chart.wire? canvas upper lower)
    chart.blank
  (layout.nodes.toList.zip chart.labels.toList).foldlM
    (fun canvas (node, label) => chart.label? canvas node.id node.depth label) wired

theorem canvas?_eq_canvasOf? (style : ChartStyle) (layout : Layout α) :
    layout.canvas? style = layout.canvasOf? style layout.edges := rfl

/-- Rows of labels are whole steps apart. -/
theorem mul_add_ne {step offset : Nat} (positive : 0 < offset) (less : offset < step)
    (depth other : Nat) : depth * step + offset ≠ other * step := by
  intro same
  have rest := congrArg (· % step) same
  simp only [Nat.mul_add_mod_self_right, Nat.mul_mod_left, Nat.mod_eq_of_lt less] at rest
  omega

/-- In a row just below labels, drawing edges adds the arms of all of them to what is there. -/
theorem shows_foldl (spanned : layout.Spanned) (graded : layout.Graded)
    (high : 3 ≤ Chart.step style) (inside : ∀ edge ∈ edges, edge ∈ layout.edges) {canvas : Canvas}
    {width height depth : Nat} {junction : Junction} (fits : canvas.Fits width height style.charSet)
    (inRow : cell.column < width) (inColumn : cell.row < height)
    (bus : cell.row = depth * Chart.step style + 1)
    (shows : canvas.Shows style.charSet cell junction) :
    (edges.foldl (layout.wire style) canvas).Shows style.charSet cell
      ((edges.map (layout.edgeArms style cell)).foldl Junction.merge junction) := by
  induction edges generalizing canvas junction with
  | nil => exact shows
  | cons edge rest inductionHypothesis =>
    obtain ⟨upper, lower, position⟩ := edge
    obtain ⟨here, later⟩ := List.forall_mem_cons.mp inside
    obtain ⟨above, below, foundUpper, foundLower, falls⟩ := spanned.falls graded style here
    -- Arrowheads stand in the rows just above labels, and these are other rows.
    have noTip : cell.row + 1 ≠ (layout.cell style below).row := by
      rw [bus]
      exact mul_add_ne Nat.two_pos high depth below.depth
    have next := shows.wire fits ((Nat.add_le_add_left high _).trans falls) inRow inColumn noTip
    rw [← cellAt_eq foundUpper, ← cellAt_eq foundLower] at next
    exact inductionHypothesis later (fits.wire _ _) next

/-- The whole drawing when the edges are drawn in the given order. -/
def drawingOf (style : ChartStyle) (layout : Layout α) (edges : List (Nat × Nat × Nat)) : Canvas :=
  (layout.nodes.toList.map (layout.writing style)).foldl Writing.put
    (edges.foldl (layout.wire style) (layout.blank style))

theorem canvasOf?_eq (spanned : layout.Spanned) (graded : layout.Graded)
    (inside : ∀ edge ∈ edges, edge ∈ layout.edges) :
    layout.canvasOf? style edges = some (layout.drawingOf style edges) := by
  rw [canvasOf?, (spanned.drawable graded style).foldlM_wire? inside, drawingOf, List.foldl_map]
  exact spanned.foldlM_label? style _

/-- Whatever the order of the edges, the drawing shows the arms of all of them in the rows just below
labels. -/
theorem at?_drawingOf (spanned : layout.Spanned) (graded : layout.Graded)
    (high : 3 ≤ Chart.step style) (same : edges.Perm layout.edges) {column depth : Nat}
    (inRow : column < (layout.blank style).width)
    (inColumn : depth * Chart.step style + 1 < (layout.blank style).height) :
    (layout.drawingOf style edges).at? column (depth * Chart.step style + 1) =
      some ((layout.arms style ⟨column, depth * Chart.step style + 1⟩).toChar style.charSet) := by
  have noLabel : ∀ placed ∈ layout.nodes,
      (layout.cell style placed).row ≠ depth * Chart.step style + 1 := fun placed _ =>
    (mul_add_ne Nat.one_pos (Nat.lt_of_lt_of_le (by decide) high) depth placed.depth).symm
  have fits : (layout.blank style).Fits (layout.blank style).width (layout.blank style).height
      style.charSet := Canvas.fits_blank _ _ _
  have blank : (layout.blank style).Shows style.charSet ⟨column, depth * Chart.step style + 1⟩
      .empty :=
    ⟨(Canvas.at?_blank _ _ _ _ _).trans (if_pos ⟨inRow, inColumn⟩), by decide⟩
  have shows := shows_foldl spanned graded high (fun edge => same.mem_iff.mp) fits inRow inColumn rfl
    blank
  rw [drawingOf, at?_writings_of_ne noLabel, arms, ← Junction.union_perm (same.map _)]
  exact shows.shown

/-- All cells that an edge touches lie on the grid. -/
theorem Spanned.edgeArms_inside (spanned : layout.Spanned) (graded : layout.Graded)
    (high : 3 ≤ Chart.step style) {edge : Nat × Nat × Nat} (member : edge ∈ layout.edges)
    (touched : layout.edgeArms style cell edge ≠ .empty) :
    cell.column < (layout.blank style).width ∧ cell.row < (layout.blank style).height := by
  obtain ⟨upper, lower, position⟩ := edge
  obtain ⟨above, below, foundUpper, foundLower, falls⟩ := spanned.falls graded style member
  rw [edgeArms, cellAt_eq foundUpper, cellAt_eq foundLower] at touched
  obtain ⟨inRow, inColumn⟩ := Cell.arms_within (by omega) touched
  have upperColumn := Nat.lt_of_le_of_lt (Nat.le_add_right _ _)
    (column_add_widest_lt style foundUpper)
  have lowerColumn := Nat.lt_of_le_of_lt (Nat.le_add_right _ _)
    (column_add_widest_lt style foundLower)
  exact ⟨Nat.lt_of_le_of_lt inRow (Nat.max_lt.mpr ⟨upperColumn, lowerColumn⟩),
    inColumn.trans (row_lt_height style foundLower)⟩

/-- The drawing keeps its wiring in the rows just below labels. It has the size of the chart, and is
made by drawing the edges one after the other. For every edge there is room to be drawn, all cells
that it touches lie on the grid, and each cell of such a row shows all arms that the edges have in it;
so do the lines, where a line that has ended shows blanks. These cells would be the same if the edges
were drawn in another order. -/
structure Bused (style : ChartStyle) (layout : Layout α) (canvas : Canvas)
    (lines : List (List Char)) : Prop where
  size : canvas.width = (Chart.ofLayout style layout).width ∧
    canvas.height = (Chart.ofLayout style layout).height
  painted : layout.canvasOf? style layout.edges = some canvas
  room : ∀ upper lower position, (upper, lower, position) ∈ layout.edges →
    (Chart.ofLayout style layout).cell? upper = some (layout.cellAt style upper) ∧
      (Chart.ofLayout style layout).cell? lower = some (layout.cellAt style lower) ∧
      (layout.cellAt style upper).row + 1 < (layout.cellAt style lower).row
  inside : ∀ edge ∈ layout.edges, ∀ cell, layout.edgeArms style cell edge ≠ .empty →
    cell.column < canvas.width ∧ cell.row < canvas.height
  cells : ∀ column depth, column < canvas.width → depth * style.rowHeight + 1 < canvas.height →
    canvas.at? column (depth * style.rowHeight + 1) =
      some ((layout.arms style ⟨column, depth * style.rowHeight + 1⟩).toChar style.charSet)
  seen : ∀ column depth, column < canvas.width → depth * style.rowHeight + 1 < canvas.height →
    ((lines[depth * style.rowHeight + 1]?.getD [])[column]?).getD ' ' =
      (layout.arms style ⟨column, depth * style.rowHeight + 1⟩).toChar style.charSet
  order : ∀ edges, edges.Perm layout.edges → ∃ other, layout.canvasOf? style edges = some other ∧
    ∀ column depth, column < canvas.width → depth * style.rowHeight + 1 < canvas.height →
      other.at? column (depth * style.rowHeight + 1) =
        canvas.at? column (depth * style.rowHeight + 1)

theorem bused_of_printed (spanned : layout.Spanned) (graded : layout.Graded)
    (high : 3 ≤ style.rowHeight)
    (fits : (layout.drawing style).Fits (layout.blank style).width (layout.blank style).height
      style.charSet)
    {lines : List (List Char)} {text : String}
    (printed : (layout.drawing style).Printed lines text) :
    layout.Bused style (layout.drawing style) lines := by
  have step : Chart.step style = style.rowHeight :=
    Nat.max_eq_left (Nat.le_trans (by decide) high)
  have drawn : layout.drawing style = layout.drawingOf style layout.edges := drawing_eq style layout
  have shown : ∀ edges, edges.Perm layout.edges → ∀ column depth,
      column < (layout.drawing style).width →
      depth * style.rowHeight + 1 < (layout.drawing style).height →
      (layout.drawingOf style edges).at? column (depth * style.rowHeight + 1) =
        some ((layout.arms style ⟨column, depth * style.rowHeight + 1⟩).toChar style.charSet) := by
    intro edges same column depth inRow inColumn
    rw [fits.sameWidth] at inRow
    rw [fits.sameHeight] at inColumn
    rw [← step] at high inColumn ⊢
    exact at?_drawingOf spanned graded high same inRow inColumn
  have cells : ∀ column depth, column < (layout.drawing style).width →
      depth * style.rowHeight + 1 < (layout.drawing style).height →
      (layout.drawing style).at? column (depth * style.rowHeight + 1) =
        some ((layout.arms style ⟨column, depth * style.rowHeight + 1⟩).toChar style.charSet) := by
    rw [drawn] at shown ⊢
    exact shown layout.edges (.refl _)
  refine ⟨⟨fits.sameWidth, fits.sameHeight⟩, ?_, fun upper lower position member => ?_,
    fun edge member cell touched => ?_, cells, fun column depth inRow inColumn => ?_,
    fun edges same => ⟨_, canvasOf?_eq spanned graded fun edge => same.mem_iff.mp,
      fun column depth inRow inColumn => ?_⟩⟩
  · rw [← canvas?_eq_canvasOf?]
    exact spanned.canvas?_eq (spanned.drawable graded style)
  · obtain ⟨above, below, foundUpper, foundLower, falls⟩ := spanned.falls graded style member
    rw [cellAt_eq foundUpper, cellAt_eq foundLower]
    exact ⟨cell?_eq foundUpper, cell?_eq foundLower, by omega⟩
  · rw [fits.sameWidth, fits.sameHeight]
    exact spanned.edgeArms_inside graded (step.symm ▸ high) member touched
  · refine printed.getD_line (cells column depth inRow inColumn) ?_
    exact Junction.toChar_visible _ _
  · rw [shown edges same column depth inRow inColumn, cells column depth inRow inColumn]

end

end Layout

/-! ### Texts -/

/-- Bus lines never lose wiring: whatever text is converted, with rows of three lines or more with
which the grid can be stored, every edge is drawn, and in the line just below labels each cell shows
all arms that edges have in it, in whatever order the edges are drawn. -/
theorem chart_bused {α : Type} [Coordinate α] {source : String} {layout : Layout α}
    {style : ChartStyle} (converted : convert source = .ok layout) (high : 3 ≤ style.rowHeight)
    (storable : (Chart.ofLayout style layout).Storable) :
    ∃ (canvas : Canvas) (lines : List (List Char)) (text : String),
      layout.canvas? style = some canvas ∧ layout.storedChart? style = some text ∧
      canvas.Printed lines text ∧ layout.Bused style canvas lines := by
  obtain ⟨_, _, _, _, _, laid, displays⟩ := displays_of_convert converted
  obtain ⟨drawn, charted, lines, printed⟩ := printed_of_convert style converted
  exact ⟨_, lines, _, drawn, (Layout.storedChart?_of_storable storable).trans charted, printed,
    Layout.bused_of_printed (displays.spanned laid) (displays.graded laid) high
      (Layout.drawing_fits style (lineFeed_not_mem_label converted)) printed⟩

theorem chart_bused_twoRows :
    convert twoRows = .ok twoRowsLayout ∧ 3 ≤ RenderConfig.default.chart.rowHeight ∧
      (Chart.ofLayout RenderConfig.default.chart twoRowsLayout).Storable ∧
      ∃ (canvas : Canvas) (lines : List (List Char)) (text : String),
        twoRowsLayout.canvas? RenderConfig.default.chart = some canvas ∧
        twoRowsLayout.storedChart? RenderConfig.default.chart = some text ∧
        canvas.Printed lines text ∧
        twoRowsLayout.Bused RenderConfig.default.chart canvas lines := by
  have storable : (Chart.ofLayout RenderConfig.default.chart twoRowsLayout).Storable := by
    decide +kernel
  exact ⟨twoRows_converted_exact, by decide, storable,
    chart_bused twoRows_converted_exact (by decide) storable⟩

/-- Not every height of rows lets the edges be drawn: with rows that are too far apart there is no
drawing, be it of a single edge. -/
theorem exists_edge_undrawn :
    ¬ ∀ (source : String) (layout : Layout Rat) (style : ChartStyle),
      convert source = .ok layout → style.columnWidth = 0 → 3 ≤ style.rowHeight →
      ∃ (canvas : Canvas) (lines : List (List Char)) (text : String),
        layout.canvas? style = some canvas ∧ layout.storedChart? style = some text ∧
        canvas.Printed lines text ∧ layout.Bused style canvas lines := by
  intro every
  obtain ⟨_, _, text, _, charted, _⟩ :=
    every oneEdge oneEdgeLayout farRows oneEdge_converted rfl (by decide)
  exact absurd (storedChart?_farRows.symm.trans charted) nofun

end ExprDiagram
