/-
This file finds the columns of exact layouts. Rounding to whole columns keeps whole distances, so
nodes that stand one unit apart get columns that are as many apart as a unit has. Where the labels
decide, a unit is two columns more than the longest label. Of two labels side by side, the left one
reaches no more than half of the longest label beyond its column, and the right one begins no more
than half of it before its own; so two columns stay free between them.
-/

import ExprDiagram.Proofs.Layout.Rendering
import ExprDiagram.Proofs.Layout.Separation
import Mathlib.Data.Rat.Floor

namespace ExprDiagram

/-! ### Outermost positions and rounding -/

namespace Coordinate

theorem smaller_eq_min : (smaller : Rat → Rat → Rat) = min := by
  funext first second
  unfold smaller
  rw [min_comm, min_def_lt]

theorem larger_eq_max : (larger : Rat → Rat → Rat) = max := by
  funext first second
  unfold larger
  rw [max_def_lt]

/-- The least of exact numbers is one of them. -/
theorem min?_eq_least {numbers : List Rat} (nonempty : numbers ≠ []) :
    numbers.min? = some (least numbers) := by
  have ordered : numbers.filter isOrdered = numbers := List.filter_eq_self.mpr fun _ _ => rfl
  unfold least
  rw [ordered, smaller_eq_min]
  cases numbers with
  | nil => exact absurd rfl nonempty
  | cons first rest => rfl

/-- The greatest of exact numbers is one of them. -/
theorem max?_eq_greatest {numbers : List Rat} (nonempty : numbers ≠ []) :
    numbers.max? = some (greatest numbers) := by
  have ordered : numbers.filter isOrdered = numbers := List.filter_eq_self.mpr fun _ _ => rfl
  unfold greatest
  rw [ordered, larger_eq_max]
  cases numbers with
  | nil => exact absurd rfl nonempty
  | cons first rest => rfl

theorem least_le {numbers : List Rat} {number : Rat} (member : number ∈ numbers) :
    least numbers ≤ number :=
  (List.min?_eq_some_iff.mp (min?_eq_least (List.ne_nil_of_mem member))).2 number member

theorem le_greatest {numbers : List Rat} {number : Rat} (member : number ∈ numbers) :
    number ≤ greatest numbers :=
  (List.max?_eq_some_iff.mp (max?_eq_greatest (List.ne_nil_of_mem member))).2 number member

/-- Rounding keeps whole distances. -/
theorem nearest_add_le {first second : Rat} {distance : Nat} (positive : 0 ≤ first)
    (apart : first + distance ≤ second) : nearest first + distance ≤ nearest second := by
  have low : 0 ≤ (first + 1 / 2).floor := Rat.le_floor_iff.mpr (by push_cast; linarith)
  have high : (first + 1 / 2).floor + distance ≤ (second + 1 / 2).floor := by
    refine Rat.le_floor_iff.mpr ?_
    have below := Rat.floor_le (first + 1 / 2)
    push_cast
    linarith
  show (first + 1 / 2).floor.toNat + distance ≤ (second + 1 / 2).floor.toNat
  omega

end Coordinate

/-! ### Columns -/

theorem Chart.step_pos (style : ChartStyle) : 0 < Chart.step style :=
  Nat.lt_of_lt_of_le Nat.two_pos (Nat.le_max_right _ _)

namespace Layout

variable {layout : Layout Rat} {style : ChartStyle} {first second : PlacedNode Rat}
variable {left right place : Nat}

/-- Nodes that are one unit apart get columns that are as many apart as a unit has. -/
theorem column_add_unit_le (style : ChartStyle) (found : layout.nodes[left]? = some first)
    (clear : first.offset + separation ≤ second.offset) :
    layout.column style first +
        Chart.unit style (Chart.widest (Chart.ofLayout style layout).labels) ≤
      layout.column style second := by
  have member : first.offset ∈ layout.offsets :=
    List.mem_map_of_mem (Array.mem_toList_iff.mpr (Array.mem_of_getElem? found))
  have leftmost : layout.minOffset ≤ first.offset := Coordinate.least_le member
  have clear : first.offset + 1 ≤ second.offset := clear
  unfold column
  simp only
  generalize Chart.unit style _ = unit
  rw [Nat.add_assoc]
  refine Nat.add_le_add_left (Coordinate.nearest_add_le ?_ ?_) _
  · show 0 ≤ (first.offset - layout.minOffset) * (unit : Rat)
    exact mul_nonneg (sub_nonneg.mpr leftmost) unit.cast_nonneg
  · show (first.offset - layout.minOffset) * (unit : Rat) + unit ≤
      (second.offset - layout.minOffset) * unit
    have scaled := mul_le_mul_of_nonneg_right clear (unit.cast_nonneg (α := Rat))
    linarith

/-- Between the labels of two nodes that are one unit apart, two columns stay free. -/
theorem label_apart (derived : style.columnWidth = 0)
    (foundFirst : layout.nodes[left]? = some first)
    (foundSecond : layout.nodes[right]? = some second)
    (clear : first.offset + separation ≤ second.offset) :
    layout.column style first - (first.drawnLabel style.charSet.chars).length / 2 +
        (first.drawnLabel style.charSet.chars).length + 2 ≤
      layout.column style second - (second.drawnLabel style.charSet.chars).length / 2 := by
  have columns := column_add_unit_le style foundFirst clear
  have wide : Chart.widest (Chart.ofLayout style layout).labels + 2 ≤
      Chart.unit style (Chart.widest (Chart.ofLayout style layout).labels) := by
    rw [Chart.unit, if_pos derived]
    exact Nat.le_max_left _ _
  have widestFirst := length_drawnLabel_le style foundFirst
  have widestSecond := length_drawnLabel_le style foundSecond
  have halfFirst := half_le_column style foundFirst
  omega

/-! ### The size of the grid -/

section

variable {α : Type} [Coordinate α] {layout : Layout α} {placed : PlacedNode α}

/-- To the right of its column, the grid leaves room for the longest label. -/
theorem column_add_widest_lt (style : ChartStyle) (found : layout.nodes[place]? = some placed) :
    layout.column style placed + Chart.widest (Chart.ofLayout style layout).labels <
      (layout.blank style).width := by
  have member := Array.mem_of_getElem? (getElem?_columns style found)
  have most := (le_foldl_max id (Chart.ofLayout style layout).columns.toList 0).2 _
    (Array.mem_toList_iff.mpr member)
  rw [Array.foldl_toList] at most
  exact Nat.lt_succ_of_le (Nat.add_le_add_right most _)

theorem row_lt_height (style : ChartStyle) (found : layout.nodes[place]? = some placed) :
    placed.depth * Chart.step style < (layout.blank style).height := by
  have depth : (Chart.ofLayout style layout).depths[place]? = some placed.depth := by
    simp only [Chart.ofLayout, Array.getElem?_map, found, Option.map_some]
  have deepest := (le_foldl_max id (Chart.ofLayout style layout).depths.toList 0).2 _
    (Array.mem_toList_iff.mpr (Array.mem_of_getElem? depth))
  rw [Array.foldl_toList] at deepest
  exact Nat.lt_succ_of_le (Nat.mul_le_mul_right _ deepest)

/-- On a grid that can be stored, no sum or product that leads to a column or a line overflows: the
ends of labels, the lines of labels and the lines below them are machine words, and so are both
sizes of the grid. -/
theorem words_of_storable (storable : (Chart.ofLayout style layout).Storable)
    (found : layout.nodes[place]? = some placed) :
    (layout.blank style).width < wordCount ∧ (layout.blank style).height < wordCount ∧
      layout.column style placed + Chart.widest (Chart.ofLayout style layout).labels < wordCount ∧
      placed.depth * Chart.step style + 1 < wordCount := by
  obtain ⟨wide, high⟩ := storable
  have width : (layout.blank style).width < wordCount := by
    show (Chart.ofLayout style layout).width < wordCount
    unfold characterBytes mostBytes at wide
    unfold wordCount
    omega
  have height : (layout.blank style).height < wordCount := by
    show (Chart.ofLayout style layout).height < wordCount
    unfold rowBytes mostBytes at high
    unfold wordCount
    omega
  exact ⟨width, height, (column_add_widest_lt style found).trans width,
    Nat.lt_of_le_of_lt (row_lt_height style found) height⟩

/-! ### Rows -/

variable {first second : PlacedNode α} {style : ChartStyle}

theorem cellAt_eq (found : layout.nodes[place]? = some placed) :
    layout.cellAt style place = layout.cell style placed := by
  rw [cellAt, cell?_eq found, Option.getD_some]

theorem row_lt_row_iff : (layout.cell style first).row < (layout.cell style second).row ↔
    first.depth < second.depth :=
  Nat.mul_lt_mul_right (Chart.step_pos style)

/-- Rows of labels are whole steps apart. -/
theorem row_add_step_le (less : (layout.cell style first).row < (layout.cell style second).row) :
    (layout.cell style first).row + Chart.step style ≤ (layout.cell style second).row := by
  have deeper : first.depth + 1 ≤ second.depth := row_lt_row_iff.mp less
  have rows := Nat.mul_le_mul_right (Chart.step style) deeper
  rwa [Nat.add_mul, Nat.one_mul] at rows

/-- An edge falls by a whole step or more. -/
theorem Spanned.falls (spanned : layout.Spanned) (graded : layout.Graded) (style : ChartStyle)
    {upper lower position : Nat} (member : (upper, lower, position) ∈ layout.edges) :
    ∃ above below, layout.nodes[upper]? = some above ∧ layout.nodes[lower]? = some below ∧
      (layout.cell style above).row + Chart.step style ≤ (layout.cell style below).row := by
  obtain ⟨above, below, foundUpper, foundLower, isChild⟩ := spanned.edge member
  refine ⟨above, below, foundUpper, foundLower, row_add_step_le (row_lt_row_iff.mpr ?_)⟩
  exact graded.deeper above (Array.mem_of_getElem? foundUpper) lower isChild below foundLower

theorem row_pos (deep : 0 < placed.depth) : 0 < (layout.cell style placed).row :=
  Nat.mul_pos deep (Chart.step_pos style)

end

end Layout

end ExprDiagram
