/-
This file finds which arrowheads are left in a drawing. An edge puts its arrowhead into the cell
above the label of its lower node. No bus line runs there, and no label is written there; but an
edge that falls in the same column from a higher row to a deeper one goes through the cell, and
since an arrowhead is no part of a line, the vertical line does not merge with it but takes its
place. So it depends on the order of the edges what is seen: the arrowhead, if the last edge that
comes to the cell is one to the node, and else a vertical line.
-/

import ExprDiagram.Proofs.Drawing.Labels
import Mathlib

namespace ExprDiagram

/-! ### The cell above a label -/

namespace Canvas

variable {canvas : Canvas} {width height : Nat} {charSet : CharSet} {upper lower node : Cell}

/-- The character right above a cell. -/
def above? (canvas : Canvas) (cell : Cell) : Option Char := canvas.at? cell.column (cell.row - 1)

/-- An edge changes the cell above a label if it leads to this label, or if it falls past it. -/
theorem Fits.above?_wire (fits : canvas.Fits width height charSet)
    (long : upper.row + 3 ≤ lower.row) (gap : upper.row < node.row → upper.row + 3 ≤ node.row)
    (positive : 0 < node.row) (inGrid : node.row < height) :
    (canvas.wire upper lower).above? node =
      (canvas.above? node).map fun old =>
        if lower = node then charSet.chars.arrowDown
        else if lower.column = node.column ∧ upper.row < node.row ∧ node.row < lower.row then
          joined charSet .vertical old
        else old := by
  have noBus : upper.row + 1 ≠ node.row - 1 := by omega
  unfold above?
  rw [fits.at?_wire long noBus (by omega)]
  congr 1
  funext old
  have same : lower = node ↔ lower.column = node.column ∧ lower.row = node.row := by
    cases lower
    cases node
    rw [Cell.mk.injEq]
  have tip : node.row - 1 + 1 = lower.row ↔ lower.row = node.row := by omega
  have shaft : upper.row + 2 ≤ node.row - 1 ∧ node.row - 1 + 1 < lower.row ↔
      upper.row < node.row ∧ node.row < lower.row := by omega
  by_cases sameColumn : lower.column = node.column
  · simp only [same, tip, shaft, sameColumn, ne_eq, not_true_eq_false, if_false, true_and]
  · simp only [same, sameColumn, ne_eq, not_false_eq_true, if_true, false_and, if_false]

/-- A vertical line takes the place of a blank and of an arrowhead, and goes on where one was. -/
theorem joined_vertical {character : Char}
    (known : character = ' ' ∨ character = charSet.chars.vertical ∨
      character = charSet.chars.arrowDown) :
    joined charSet .vertical character = charSet.chars.vertical := by
  rcases known with rfl | rfl | rfl <;> cases charSet <;> rfl

end Canvas

namespace Layout

variable {layout : Layout Rat} {style : ChartStyle} {place : Nat}

/-! ### Edges that fall past a node -/

/-- The edge falls past the node at a place: it comes down in the column of the node, from a higher
row to a deeper one. -/
def Passes (style : ChartStyle) (layout : Layout Rat) (place : Nat) (edge : Nat × Nat × Nat) :
    Prop :=
  ∃ node upper lower, (Chart.ofLayout style layout).cell? place = some node ∧
    (Chart.ofLayout style layout).cell? edge.1 = some upper ∧
    (Chart.ofLayout style layout).cell? edge.2.1 = some lower ∧
    lower.column = node.column ∧ upper.row < node.row ∧ node.row < lower.row

/-- Among the edges, in the order in which they are drawn, there is one to the node at a place after
which none falls past the node. -/
def Tipped (style : ChartStyle) (layout : Layout Rat) (place : Nat)
    (edges : List (Nat × Nat × Nat)) : Prop :=
  ∃ before after upper position, edges = before ++ (upper, place, position) :: after ∧
    ∀ edge ∈ after, ¬ layout.Passes style place edge

theorem tipped_concat (style : ChartStyle) (layout : Layout Rat) (edges : List (Nat × Nat × Nat))
    (upper place position : Nat) :
    layout.Tipped style place (edges ++ [(upper, place, position)]) :=
  ⟨edges, [], upper, position, rfl, nofun⟩

theorem tipped_concat_iff {edges : List (Nat × Nat × Nat)} {edge : Nat × Nat × Nat}
    (other : edge.2.1 ≠ place) :
    layout.Tipped style place (edges ++ [edge]) ↔
      layout.Tipped style place edges ∧ ¬ layout.Passes style place edge := by
  constructor
  · rintro ⟨before, after, upper, position, split, none⟩
    rcases List.eq_nil_or_concat' after with rfl | ⟨others, last, rfl⟩
    · have same := List.singleton_inj.mp (List.append_inj' split rfl).2
      exact absurd (congrArg (fun edge => edge.2.1) same) other
    · rw [← List.cons_append, ← List.append_assoc] at split
      obtain ⟨rfl, same⟩ := List.append_inj' split rfl
      obtain rfl := List.singleton_inj.mp same
      obtain ⟨noneBefore, notLast⟩ := List.forall_mem_append.mp none
      exact ⟨⟨before, others, upper, position, rfl, noneBefore⟩, notLast edge List.mem_cons_self⟩
  · rintro ⟨⟨before, after, upper, position, rfl, none⟩, notPast⟩
    refine ⟨before, after ++ [edge], upper, position, by simp, ?_⟩
    exact List.forall_mem_append.mpr ⟨none, List.forall_mem_singleton.mpr notPast⟩

/-! ### What is seen above a label -/

/-- What the cell above the label of a node shows when some edges have been drawn: an arrowhead, a
vertical line, or nothing as long as no edge leads to the node. -/
def Above (style : ChartStyle) (layout : Layout Rat) (place : Nat)
    (edges : List (Nat × Nat × Nat)) (character : Char) : Prop :=
  character = style.charSet.chars.arrowDown ∧ layout.Tipped style place edges ∨
    character = style.charSet.chars.vertical ∧ ¬ layout.Tipped style place edges ∨
    character = ' ' ∧ ∀ edge ∈ edges, edge.2.1 ≠ place

variable {edges : List (Nat × Nat × Nat)} {edge : Nat × Nat × Nat} {character : Char}

/-- An edge that falls past a node leaves a vertical line above its label. -/
theorem Above.passed (above : layout.Above style place edges character) (other : edge.2.1 ≠ place)
    (passes : layout.Passes style place edge) :
    layout.Above style place (edges ++ [edge])
      (Canvas.joined style.charSet .vertical character) := by
  have known : character = ' ' ∨ character = style.charSet.chars.vertical ∨
      character = style.charSet.chars.arrowDown := by
    rcases above with ⟨shown, _⟩ | ⟨shown, _⟩ | ⟨shown, _⟩
    · exact .inr (.inr shown)
    · exact .inr (.inl shown)
    · exact .inl shown
  refine .inr (.inl ⟨Canvas.joined_vertical known, fun tipped => ?_⟩)
  exact ((tipped_concat_iff other).mp tipped).2 passes

/-- An edge that neither leads to a node nor falls past it leaves what is above its label. -/
theorem Above.beside (above : layout.Above style place edges character) (other : edge.2.1 ≠ place)
    (notPast : ¬ layout.Passes style place edge) :
    layout.Above style place (edges ++ [edge]) character := by
  have same : layout.Tipped style place (edges ++ [edge]) ↔ layout.Tipped style place edges :=
    (tipped_concat_iff other).trans (and_iff_left notPast)
  rcases above with ⟨shown, tipped⟩ | ⟨shown, notTipped⟩ | ⟨shown, none⟩
  · exact .inl ⟨shown, same.mpr tipped⟩
  · exact .inr (.inl ⟨shown, same.not.mpr notTipped⟩)
  · have noneOf := List.forall_mem_append.mpr ⟨none, List.forall_mem_singleton.mpr other⟩
    exact .inr (.inr ⟨shown, noneOf⟩)

/-- In the end, a node that an edge leads to has an arrowhead or a vertical line above its label. -/
theorem Above.cases (above : layout.Above style place edges character) (member : edge ∈ edges)
    (leads : edge.2.1 = place) :
    (layout.Tipped style place edges → character = style.charSet.chars.arrowDown) ∧
      (¬ layout.Tipped style place edges → character = style.charSet.chars.vertical) := by
  rcases above with ⟨shown, tipped⟩ | ⟨shown, notTipped⟩ | ⟨_, none⟩
  · exact ⟨fun _ => shown, fun notTipped => absurd tipped notTipped⟩
  · exact ⟨fun tipped => absurd tipped notTipped, fun _ => shown⟩
  · exact absurd leads (none edge member)

/-! ### Edges of a layout -/

variable {node first second : PlacedNode Rat} {left right : Nat}

/-- No two nodes have the same cell. -/
theorem Separated.cell_injective (separated : layout.Separated)
    (foundLeft : layout.nodes[left]? = some first)
    (foundRight : layout.nodes[right]? = some second) (derived : style.columnWidth = 0)
    (same : layout.cell style first = layout.cell style second) : left = right := by
  obtain ⟨sameColumn, sameRow⟩ := Cell.mk.inj same
  have sameDepth := Nat.eq_of_mul_eq_mul_right (Chart.step_pos style) sameRow
  have unit : 0 < Chart.unit style (Chart.widest (Chart.ofLayout style layout).labels) := by
    rw [Chart.unit, if_pos derived]
    exact Nat.lt_of_lt_of_le (by decide) (Nat.le_max_right _ _)
  rcases Nat.lt_trichotomy left right with less | same | greater
  · have apart := column_add_unit_le style foundLeft
      (separated.clear left right first second less foundLeft foundRight sameDepth)
    omega
  · exact same
  · have apart := column_add_unit_le style foundRight
      (separated.clear right left second first greater foundRight foundLeft sameDepth.symm)
    omega

theorem passes_iff (style : ChartStyle) (found : layout.nodes[place]? = some node)
    {upper lower : Nat} (position : Nat) (foundUpper : layout.nodes[upper]? = some first)
    (foundLower : layout.nodes[lower]? = some second) :
    layout.Passes style place (upper, lower, position) ↔
      (layout.cell style second).column = (layout.cell style node).column ∧
        (layout.cell style first).row < (layout.cell style node).row ∧
        (layout.cell style node).row < (layout.cell style second).row := by
  simp only [Passes, cell?_eq found, cell?_eq foundUpper, cell?_eq foundLower, Option.some.injEq]
  constructor
  · rintro ⟨_, _, _, rfl, rfl, rfl, past⟩
    exact past
  · exact fun past => ⟨_, _, _, rfl, rfl, rfl, past⟩

section

variable (spanned : layout.Spanned) (graded : layout.Graded) (separated : layout.Separated)
variable (derived : style.columnWidth = 0) (high : 3 ≤ Chart.step style)

include spanned graded separated derived high

/-- What is above a label goes on to depend on the order of edges when one more edge is drawn. -/
theorem Above.wire (above : layout.Above style place edges character)
    (found : layout.nodes[place]? = some node) (deep : 0 < node.depth)
    (member : edge ∈ layout.edges) {canvas : Canvas}
    (fits : canvas.Fits (layout.blank style).width (layout.blank style).height style.charSet)
    (here : canvas.above? (layout.cell style node) = some character) :
    ∃ next, (layout.wire style canvas edge).above? (layout.cell style node) = some next ∧
      layout.Above style place (edges ++ [edge]) next := by
  obtain ⟨upper, lower, position⟩ := edge
  obtain ⟨first, second, foundUpper, foundLower, falls⟩ := spanned.falls graded style member
  have long := (Nat.add_le_add_left high _).trans falls
  have gap : (layout.cell style first).row < (layout.cell style node).row →
      (layout.cell style first).row + 3 ≤ (layout.cell style node).row := fun less =>
    (Nat.add_le_add_left high _).trans (row_add_step_le less)
  rw [Layout.wire, cellAt_eq foundUpper, cellAt_eq foundLower,
    fits.above?_wire long gap (row_pos deep) (row_lt_height style found), here, Option.map_some]
  refine ⟨_, rfl, ?_⟩
  by_cases leads : layout.cell style second = layout.cell style node
  · obtain rfl := separated.cell_injective foundLower found derived leads
    rw [if_pos leads]
    exact .inl ⟨rfl, tipped_concat style layout edges upper lower position⟩
  · have other : lower ≠ place := by
      rintro rfl
      rw [Option.some.inj (foundLower.symm.trans found)] at leads
      exact leads rfl
    have past := passes_iff style found position foundUpper foundLower
    rw [if_neg leads]
    by_cases passes : layout.Passes style place (upper, lower, position)
    · rw [if_pos (past.mp passes)]
      exact above.passed other passes
    · rw [if_neg (past.not.mp passes)]
      exact above.beside other passes

/-- What is above a label when edges have been drawn one after the other. -/
theorem exists_above (found : layout.nodes[place]? = some node) (deep : 0 < node.depth)
    (inside : ∀ edge ∈ edges, edge ∈ layout.edges) :
    ∃ character,
      (edges.foldl (layout.wire style) (layout.blank style)).above? (layout.cell style node) =
        some character ∧
      layout.Above style place edges character := by
  -- From the last edge backward: each edge may undo what those before it have left in the cell.
  induction edges using List.reverseRecOn with
  | nil =>
    refine ⟨' ', ?_, .inr (.inr ⟨rfl, nofun⟩)⟩
    have inRow := Nat.lt_of_le_of_lt (Nat.le_add_right _ _) (column_add_widest_lt style found)
    have inColumn := Nat.lt_of_le_of_lt (Nat.sub_le _ 1) (row_lt_height style found)
    exact (Canvas.at?_blank _ _ _ _ _).trans (if_pos ⟨inRow, inColumn⟩)
  | append_singleton front edge inductionHypothesis =>
    obtain ⟨insideFront, insideLast⟩ := List.forall_mem_append.mp inside
    obtain ⟨character, here, above⟩ := inductionHypothesis insideFront
    have fits : (front.foldl (layout.wire style) (layout.blank style)).Fits
        (layout.blank style).width (layout.blank style).height style.charSet :=
      (Canvas.fits_blank _ _ _).foldl fun _ _ _ fits => fits.wire _ _
    rw [List.foldl_append]
    exact above.wire spanned graded separated derived high found deep
      (insideLast edge List.mem_cons_self) fits here

end

/-- Labels are written in other rows than arrowheads. -/
theorem above?_drawing (high : 3 ≤ Chart.step style) (deep : 0 < node.depth) :
    (layout.drawing style).above? (layout.cell style node) =
      (layout.wiring style).above? (layout.cell style node) := by
  have positive : 0 < (layout.cell style node).row := row_pos deep
  refine at?_drawing_of_ne (fun other _ same => ?_) _
  have less : (layout.cell style other).row < (layout.cell style node).row := by omega
  have apart := row_add_step_le less
  omega

/-- The lines show, above the label of each node that an edge leads to, an arrowhead if none of the
edges that are drawn after the last edge to the node falls past it, and else a vertical line. -/
def Arrowed (layout : Layout Rat) (style : ChartStyle) (lines : List (List Char)) : Prop :=
  ∀ upper lower position, (upper, lower, position) ∈ layout.edges →
    ∃ cell, (Chart.ofLayout style layout).cell? lower = some cell ∧ 0 < cell.row ∧
      (layout.Tipped style lower layout.edges →
        (lines[cell.row - 1]?.getD [])[cell.column]? = some style.charSet.chars.arrowDown) ∧
      (¬ layout.Tipped style lower layout.edges →
        (lines[cell.row - 1]?.getD [])[cell.column]? = some style.charSet.chars.vertical)

theorem arrowed_of_printed (spanned : layout.Spanned) (graded : layout.Graded)
    (separated : layout.Separated) (derived : style.columnWidth = 0) (high : 3 ≤ Chart.step style)
    {lines : List (List Char)} {text : String}
    (printed : (layout.drawing style).Printed lines text) : layout.Arrowed style lines := by
  intro upper lower position member
  obtain ⟨above, below, foundUpper, foundLower, isChild⟩ := spanned.edge member
  have deep : 0 < below.depth := Nat.lt_of_le_of_lt (Nat.zero_le _)
    (graded.deeper above (Array.mem_of_getElem? foundUpper) lower isChild below foundLower)
  obtain ⟨character, here, shown⟩ := exists_above spanned graded separated derived high foundLower
    deep fun edge inEdges => inEdges
  have inDrawing := (above?_drawing high deep).trans here
  obtain ⟨arrow, line⟩ := shown.cases member rfl
  refine ⟨_, cell?_eq foundLower, row_pos deep, fun tipped => ?_, fun notTipped => ?_⟩
  · obtain rfl := arrow tipped
    refine printed.getElem?_line inDrawing ?_
    cases style.charSet <;> decide
  · obtain rfl := line notTipped
    refine printed.getElem?_line inDrawing ?_
    cases style.charSet <;> decide

end Layout

/-! ### Texts -/

/-- An edge of a drawing ends in an arrowhead that can be seen, unless an edge that is drawn later
falls past its end. Whatever text is converted, with the width of columns left to the labels and
rows of three lines or more with which the grid can be stored, the cell above the label of a node
that edges lead to shows an arrowhead if after the last edge to the node none falls past it, and else
a vertical line. -/
theorem chart_arrowed {source : String} {layout : Layout Rat} {style : ChartStyle}
    (converted : convert source = .ok layout) (derived : style.columnWidth = 0)
    (high : 3 ≤ style.rowHeight) (storable : (Chart.ofLayout style layout).Storable) :
    ∃ (canvas : Canvas) (lines : List (List Char)) (text : String),
      layout.canvas? style = some canvas ∧ layout.storedChart? style = some text ∧
      canvas.Printed lines text ∧ layout.Arrowed style lines := by
  obtain ⟨_, _, _, _, _, laid, displays⟩ := displays_of_convert converted
  obtain ⟨drawn, charted, lines, printed⟩ := printed_of_convert style converted
  exact ⟨_, lines, _, drawn, (Layout.storedChart?_of_storable storable).trans charted, printed,
    Layout.arrowed_of_printed (displays.spanned laid) (displays.graded laid)
      (displays.separated laid) derived (high.trans (Nat.le_max_left _ _)) printed⟩

/-- A text in which the edge to one argument falls past the other one, which was drawn before. -/
def overtaken : String := "(define v x) (f (g v) v)"

/-- The layout of that text: all nodes stand in one column. -/
def overtakenLayout : Layout Rat where
  root := 0
  nodes := #[⟨0, "f", .call, 0, 0, [1, 2], [1]⟩, ⟨1, "g", .call, 1, 0, [2], [2]⟩,
    ⟨2, "v", .var, 2, 0, [3], [3]⟩, ⟨3, "x", .symbol, 3, 0, [], []⟩]

/-- The vertical line above the inner call belongs to the edge that falls past it. -/
example : overtakenLayout.chart? RenderConfig.default.chart =
    some " f\n │\n │\n │\n g\n │\n │\n ▼\n⟨v⟩\n │\n │\n ▼\n x\n" := by
  decide +kernel

theorem overtaken_converted : convert overtaken = .ok overtakenLayout := by
  cbv

theorem chart_arrowed_overtaken :
    convert overtaken = .ok overtakenLayout ∧
      RenderConfig.default.chart.columnWidth = 0 ∧ 3 ≤ RenderConfig.default.chart.rowHeight ∧
      (Chart.ofLayout RenderConfig.default.chart overtakenLayout).Storable ∧
      ∃ (canvas : Canvas) (lines : List (List Char)) (text : String),
        overtakenLayout.canvas? RenderConfig.default.chart = some canvas ∧
        overtakenLayout.storedChart? RenderConfig.default.chart = some text ∧
        canvas.Printed lines text ∧ overtakenLayout.Arrowed RenderConfig.default.chart lines := by
  have storable : (Chart.ofLayout RenderConfig.default.chart overtakenLayout).Storable := by
    decide +kernel
  exact ⟨overtaken_converted, rfl, by decide, storable,
    chart_arrowed overtaken_converted rfl (by decide) storable⟩

/-- Not every edge ends in an arrowhead that can be seen. In the drawing of the text above, a
vertical line has taken the place of the arrowhead over the inner call. -/
theorem exists_edge_without_arrow :
    ¬ ∀ (source : String) (layout : Layout Rat) (style : ChartStyle) (canvas : Canvas),
      convert source = .ok layout → style.columnWidth = 0 → 3 ≤ style.rowHeight →
      layout.canvas? style = some canvas →
      ∀ upper lower position, (upper, lower, position) ∈ layout.edges →
        ∃ cell, (Chart.ofLayout style layout).cell? lower = some cell ∧
          canvas.above? cell = some style.charSet.chars.arrowDown := by
  intro every
  have shown : ((overtakenLayout.canvas? RenderConfig.default.chart).bind
      fun canvas => canvas.above? ⟨1, 4⟩) = some '│' := by
    decide +kernel
  obtain ⟨canvas, drawn, line⟩ := Option.bind_eq_some_iff.mp shown
  obtain ⟨cell, here, arrow⟩ := every overtaken overtakenLayout RenderConfig.default.chart canvas
    overtaken_converted rfl (by decide) drawn 0 1 0 (by decide)
  have found : (Chart.ofLayout RenderConfig.default.chart overtakenLayout).cell? 1 =
      some ⟨1, 4⟩ := by
    decide +kernel
  obtain rfl := Option.some.inj (found.symm.trans here)
  exact absurd (line.symm.trans arrow) (by decide)

end ExprDiagram
