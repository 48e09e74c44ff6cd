/-
This file shows that every label can be read in a drawing. Labels are written after all lines, so
only another label could hide a part of one; but labels of one row keep two columns apart, and the
grid is wide enough for all of them. The text that is made of the grid has its rows as lines.
-/

import ExprDiagram.Proofs.Drawing.Columns
import ExprDiagram.Proofs.Drawing.Grid
import ExprDiagram.Proofs.Drawing.Lines
import ExprDiagram.Proofs.Layout.Words

namespace ExprDiagram

/-! ### Writings -/

/-- A text that is written in a row of the grid. -/
structure Writing where
  column : Nat
  row : Nat
  text : List Char

namespace Writing

/-- Every character of the text stands in its cell. -/
def Stands (writing : Writing) (canvas : Canvas) : Prop :=
  ∀ index (bound : index < writing.text.length),
    canvas.at? (writing.column + index) writing.row = some writing.text[index]

/-- The first text ends two columns or more before the second one begins. -/
def Before (first second : Writing) : Prop :=
  first.column + first.text.length + 2 ≤ second.column

/-- Writes the text. -/
def put (canvas : Canvas) (writing : Writing) : Canvas :=
  canvas.write writing.column writing.row writing.text

/-- The text lies within a grid. -/
structure Inside (width height : Nat) (writing : Writing) : Prop where
  columns : writing.column + writing.text.length ≤ width
  row : writing.row < height
  clean : '\n' ∉ writing.text

variable {width height : Nat} {charSet : CharSet} {canvas : Canvas} {writing other : Writing}
variable {writings : List Writing}

theorem stands_put (fits : canvas.Fits width height charSet)
    (inside : writing.Inside width height) : writing.Stands (put canvas writing) := by
  intro index bound
  have inRow := Nat.lt_of_lt_of_le (Nat.add_lt_add_left bound writing.column) inside.columns
  obtain ⟨old, found⟩ := Option.isSome_iff_exists.mp (fits.cells _ _ inRow inside.row)
  rw [put, Canvas.at?_write, found, Option.map_some, if_pos ⟨rfl, Nat.le_add_right _ _⟩,
    Nat.add_sub_cancel_left, List.getElem?_eq_getElem bound, Option.getD_some]

/-- A text that is written behind another one leaves it as it is. -/
theorem Stands.put (stands : writing.Stands canvas)
    (before : writing.row = other.row → writing.Before other) :
    writing.Stands (put canvas other) := by
  intro index bound
  rw [Writing.put, Canvas.at?_write, stands index bound, Option.map_some]
  congr 1
  refine if_neg fun ⟨sameRow, inOther⟩ => ?_
  have apart : writing.column + writing.text.length + 2 ≤ other.column := before sameRow.symm
  omega

theorem Stands.foldl (stands : writing.Stands canvas)
    (before : ∀ other ∈ writings, writing.row = other.row → writing.Before other) :
    writing.Stands (writings.foldl Writing.put canvas) := by
  induction writings generalizing canvas with
  | nil => exact stands
  | cons other rest inductionHypothesis =>
    obtain ⟨here, later⟩ := List.forall_mem_cons.mp before
    exact inductionHypothesis (stands.put here) later

theorem fits_foldl (fits : canvas.Fits width height charSet)
    (inside : ∀ writing ∈ writings, writing.Inside width height) :
    (writings.foldl put canvas).Fits width height charSet :=
  fits.foldl fun writing member _ fits => fits.write _ _ (inside writing member).clean

/-- When texts that keep apart have been written one after the other, all of them stand. -/
theorem stands_foldl (fits : canvas.Fits width height charSet)
    (inside : ∀ writing ∈ writings, writing.Inside width height)
    (apart : writings.Pairwise fun first second => first.row = second.row → first.Before second) :
    ∀ writing ∈ writings, writing.Stands (writings.foldl put canvas) := by
  induction writings generalizing canvas with
  | nil => exact nofun
  | cons first rest inductionHypothesis =>
    obtain ⟨insideFirst, insideRest⟩ := List.forall_mem_cons.mp inside
    obtain ⟨beforeRest, apartRest⟩ := List.pairwise_cons.mp apart
    exact List.forall_mem_cons.mpr ⟨(stands_put fits insideFirst).foldl beforeRest,
      inductionHypothesis (fits.write _ _ insideFirst.clean) insideRest apartRest⟩

theorem at?_foldl_of_row_ne {row : Nat} (different : ∀ writing ∈ writings, writing.row ≠ row)
    (column : Nat) : (writings.foldl put canvas).at? column row = canvas.at? column row := by
  induction writings generalizing canvas with
  | nil => rfl
  | cons first rest inductionHypothesis =>
    obtain ⟨here, later⟩ := List.forall_mem_cons.mp different
    rw [List.foldl_cons, inductionHypothesis later, put, Canvas.at?_write]
    simp [here]

end Writing

/-! ### Labels -/

/-- The label of a node, written so that its middle stands in a column. -/
def PlacedNode.writing {α : Type} (style : ChartStyle) (column : Nat) (placed : PlacedNode α) :
    Writing :=
  let label := placed.drawnLabel style.charSet.chars
  ⟨column - label.length / 2, placed.depth * Chart.step style, label⟩

namespace Layout

/-- The drawing has all labels: each of them stands complete in the row of its node, with its middle
in the column of the node, and the labels of one row are two columns or more apart. -/
structure Labelled (layout : Layout Rat) (style : ChartStyle) (canvas : Canvas) : Prop where
  complete : ∀ (place : Nat) (placed : PlacedNode Rat), layout.nodes[place]? = some placed →
    ∃ column, (Chart.ofLayout style layout).columns[place]? = some column ∧
      (placed.drawnLabel style.charSet.chars).length / 2 ≤ column ∧
      (placed.writing style column).Stands canvas
  apart : ∀ (left right : Nat) (first second : PlacedNode Rat) (firstColumn secondColumn : Nat),
    left < right → layout.nodes[left]? = some first → layout.nodes[right]? = some second →
    (Chart.ofLayout style layout).columns[left]? = some firstColumn →
    (Chart.ofLayout style layout).columns[right]? = some secondColumn →
    first.depth = second.depth →
    (first.writing style firstColumn).Before (second.writing style secondColumn)

section

variable {α : Type} [Coordinate α] {layout : Layout α} {placed : PlacedNode α}
variable {style : ChartStyle} {place : Nat}

/-- The label of a node where it is written. -/
def writing (style : ChartStyle) (layout : Layout α) (placed : PlacedNode α) : Writing :=
  placed.writing style (layout.column style placed)

theorem drawing_eq (style : ChartStyle) (layout : Layout α) :
    layout.drawing style =
      (layout.nodes.toList.map (layout.writing style)).foldl Writing.put (layout.wiring style) := by
  rw [List.foldl_map]
  rfl

/-- Labels are written in the rows of their nodes only. -/
theorem at?_writings_of_ne {row : Nat}
    (different : ∀ placed ∈ layout.nodes, (layout.cell style placed).row ≠ row) (canvas : Canvas)
    (column : Nat) :
    ((layout.nodes.toList.map (layout.writing style)).foldl Writing.put canvas).at? column row =
      canvas.at? column row :=
  Writing.at?_foldl_of_row_ne (List.forall_mem_map.mpr fun placed member =>
    different placed (Array.mem_toList_iff.mp member)) column

theorem at?_drawing_of_ne {row : Nat}
    (different : ∀ placed ∈ layout.nodes, (layout.cell style placed).row ≠ row) (column : Nat) :
    (layout.drawing style).at? column row = (layout.wiring style).at? column row := by
  rw [drawing_eq, at?_writings_of_ne different]

/-- The grid keeps its size while the lines are drawn. -/
theorem wiring_fits (style : ChartStyle) (layout : Layout α) :
    (layout.wiring style).Fits (layout.blank style).width (layout.blank style).height
      style.charSet :=
  (Canvas.fits_blank _ _ _).foldl fun _ _ _ fits => fits.wire _ _

omit [Coordinate α] in
theorem drawnLabel_clean (style : ChartStyle) (clean : '\n' ∉ placed.label.toList) :
    '\n' ∉ placed.drawnLabel style.charSet.chars := by
  have bracket : ∀ character ∈ style.charSet.chars.toList, character ≠ '\n' := fun _ member =>
    CharSet.ne_lineFeed (List.mem_cons_of_mem _ member)
  unfold PlacedNode.drawnLabel
  split
  · have opening := bracket style.charSet.chars.nameOpen (by simp [LineChars.toList])
    have closing := bracket style.charSet.chars.nameClose (by simp [LineChars.toList])
    simp [clean, opening.symm, closing.symm]
  · exact clean

/-- Every label lies within the grid. -/
theorem writing_inside (style : ChartStyle) (found : layout.nodes[place]? = some placed)
    (clean : '\n' ∉ placed.label.toList) :
    (layout.writing style placed).Inside (layout.blank style).width
      (layout.blank style).height where
  columns := by
    exact (Nat.add_le_add (Nat.sub_le _ _) (length_drawnLabel_le style found)).trans
      (column_add_widest_lt style found).le
  row := row_lt_height style found
  clean := drawnLabel_clean style clean

theorem writings_inside (style : ChartStyle)
    (clean : ∀ placed ∈ layout.nodes, '\n' ∉ placed.label.toList) :
    ∀ writing ∈ layout.nodes.toList.map (layout.writing style),
      writing.Inside (layout.blank style).width (layout.blank style).height := by
  refine List.forall_mem_map.mpr fun placed member => ?_
  have inNodes := Array.mem_toList_iff.mp member
  obtain ⟨place, found⟩ := Array.getElem?_of_mem inNodes
  exact writing_inside style found (clean placed inNodes)

/-- The grid keeps its size while the labels are written. -/
theorem drawing_fits (style : ChartStyle)
    (clean : ∀ placed ∈ layout.nodes, '\n' ∉ placed.label.toList) :
    (layout.drawing style).Fits (layout.blank style).width (layout.blank style).height
      style.charSet := by
  rw [drawing_eq]
  exact Writing.fits_foldl (wiring_fits style layout) (writings_inside style clean)

end

variable {layout : Layout Rat} {style : ChartStyle}

theorem Separated.writing_before (separated : layout.Separated) (derived : style.columnWidth = 0)
    {left right : Nat} {first second : PlacedNode Rat} (less : left < right)
    (foundFirst : layout.nodes[left]? = some first)
    (foundSecond : layout.nodes[right]? = some second) (sameDepth : first.depth = second.depth) :
    (layout.writing style first).Before (layout.writing style second) :=
  label_apart derived foundFirst foundSecond
    (separated.clear left right first second less foundFirst foundSecond sameDepth)

theorem Separated.labelled (separated : layout.Separated) (derived : style.columnWidth = 0)
    (clean : ∀ placed ∈ layout.nodes, '\n' ∉ placed.label.toList) :
    layout.Labelled style (layout.drawing style) := by
  have apart : (layout.nodes.toList.map (layout.writing style)).Pairwise fun first second =>
      first.row = second.row → first.Before second := by
    refine List.pairwise_map.mpr (List.pairwise_iff_getElem.mpr
      fun left right inLeft inRight less sameRow => ?_)
    refine separated.writing_before derived less ?_ ?_
      (Nat.eq_of_mul_eq_mul_right (Chart.step_pos style) sameRow)
    · rw [← Array.getElem?_toList, List.getElem?_eq_getElem]
    · rw [← Array.getElem?_toList, List.getElem?_eq_getElem]
  refine ⟨fun place placed found => ?_, fun left right first second firstColumn secondColumn less
    foundFirst foundSecond inFirst inSecond sameDepth => ?_⟩
  · refine ⟨_, getElem?_columns style found, half_le_column style found, ?_⟩
    rw [drawing_eq]
    exact Writing.stands_foldl (layout.wiring_fits style) (writings_inside style clean) apart _
      (List.mem_map_of_mem (Array.mem_toList_iff.mpr (Array.mem_of_getElem? found)))
  · obtain rfl := Option.some.inj (inFirst.symm.trans (getElem?_columns style foundFirst))
    obtain rfl := Option.some.inj (inSecond.symm.trans (getElem?_columns style foundSecond))
    exact separated.writing_before derived less foundFirst foundSecond sameDepth

end Layout

/-! ### Texts -/

section

variable {α : Type} [Coordinate α] {source : String} {layout : Layout α}

theorem lineFeed_not_mem_label (converted : convert source = .ok layout) :
    ∀ placed ∈ layout.nodes, '\n' ∉ placed.label.toList := fun _ member inLabel =>
  absurd (isWordCharacter_of_label converted member inLabel) (by decide)

/-- A text that is converted is drawn, and the drawing is printed. -/
theorem printed_of_convert (style : ChartStyle) (converted : convert source = .ok layout) :
    layout.canvas? style = some (layout.drawing style) ∧
      layout.chart? style = some (layout.drawing style).text ∧
      ∃ lines, (layout.drawing style).Printed lines (layout.drawing style).text := by
  obtain ⟨_, _, _, _, _, laid, displays⟩ := displays_of_convert converted
  have spanned := displays.spanned laid
  have drawn := spanned.canvas?_eq (spanned.drawable (displays.graded laid) style)
  have some : layout.isEmpty = false := by
    rw [Layout.isEmpty, Array.isEmpty_eq_false_iff, ← Array.size_pos_iff]
    exact spanned.rootNode
  refine ⟨drawn, ?_, ?_⟩
  · rw [Layout.chart?, some, drawn]
    rfl
  · exact (Layout.drawing_fits style (lineFeed_not_mem_label converted)).exists_printed
      (Nat.succ_pos _) (Nat.succ_pos _)

end

variable {source : String} {layout : Layout Rat} {style : ChartStyle}

/-- The labels of a drawing are complete and never collide: whatever text is converted, with the
width of columns left to the labels, each label stands whole in its row around its column, and two
columns are free between labels side by side. The text of the drawing has the rows of the grid as
its lines, without white space at their ends and without empty lines below. All this holds for every
height of rows with which the grid can be stored. -/
theorem chart_labelled (converted : convert source = .ok layout) (derived : style.columnWidth = 0)
    (storable : (Chart.ofLayout style layout).Storable) :
    ∃ (canvas : Canvas) (lines : List (List Char)) (text : String),
      layout.canvas? style = some canvas ∧ layout.Labelled style canvas ∧
      layout.storedChart? style = some text ∧ canvas.Printed lines text := by
  obtain ⟨program, arrangement, tree, _, _, laid, displays⟩ := displays_of_convert converted
  have labelled := (displays.separated laid).labelled derived (lineFeed_not_mem_label converted)
  obtain ⟨drawn, charted, lines, printed⟩ := printed_of_convert style converted
  exact ⟨_, lines, _, drawn, labelled, (Layout.storedChart?_of_storable storable).trans charted,
    printed⟩

theorem chart_labelled_twoRows :
    convert twoRows = .ok twoRowsLayout ∧ RenderConfig.default.chart.columnWidth = 0 ∧
      (Chart.ofLayout RenderConfig.default.chart twoRowsLayout).Storable ∧
      ∃ (canvas : Canvas) (lines : List (List Char)) (text : String),
        twoRowsLayout.canvas? RenderConfig.default.chart = some canvas ∧
        twoRowsLayout.Labelled RenderConfig.default.chart canvas ∧
        twoRowsLayout.storedChart? RenderConfig.default.chart = some text ∧
        canvas.Printed lines text := by
  have storable : (Chart.ofLayout RenderConfig.default.chart twoRowsLayout).Storable := by
    decide +kernel
  exact ⟨twoRows_converted_exact, rfl, storable,
    chart_labelled twoRows_converted_exact rfl storable⟩

/-! ### Rows that are too high -/

/-- A text with a single edge. -/
def oneEdge : String := "(f a)"

/-- The exact layout of that text. -/
def oneEdgeLayout : Layout Rat where
  root := 0
  nodes := #[⟨0, "f", .call, 0, 0, [1], [1]⟩, ⟨1, "a", .symbol, 1, 0, [], []⟩]

theorem oneEdge_converted : convert oneEdge = .ok oneEdgeLayout := by
  cbv

/-- Rows of labels so far apart that the lines from one to the next cannot be stored. -/
def farRows : ChartStyle := ⟨.box, 0, 4611686018427387904⟩

theorem storedChart?_farRows : oneEdgeLayout.storedChart? farRows = none := by
  have notStorable : ¬ (Chart.ofLayout farRows oneEdgeLayout).Storable := by
    decide +kernel
  exact if_neg notStorable

/-- Not every height of rows lets the labels be drawn: with rows that are too far apart there is no
drawing, be it of a single edge. -/
theorem exists_label_undrawn :
    ¬ ∀ (source : String) (layout : Layout Rat) (style : ChartStyle),
      convert source = .ok layout → style.columnWidth = 0 →
      ∃ (canvas : Canvas) (lines : List (List Char)) (text : String),
        layout.canvas? style = some canvas ∧ layout.Labelled style canvas ∧
        layout.storedChart? style = some text ∧ canvas.Printed lines text := by
  intro every
  obtain ⟨_, _, text, _, _, charted, _⟩ :=
    every oneEdge oneEdgeLayout farRows oneEdge_converted rfl
  exact absurd (storedChart?_farRows.symm.trans charted) nofun

end ExprDiagram
