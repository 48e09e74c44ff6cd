/-
This file shows that nothing collides in a vector drawing, and that everything lies on the page.
Coordinates are taken as exact numbers, before they are rounded in print. Two discs of one row are
as far apart as a column is wide, and two discs of different rows as a row is high; so discs do not
overlap when columns and rows have room for one. The page is measured by the outermost nodes, whose
discs therefore keep exactly the padding. The slots of a node lie strictly between the sides of its
disc, in the order of the arguments.
-/

import ExprDiagram.Proofs.Drawing.Columns
import Mathlib

namespace ExprDiagram

/-! ### Discs -/

namespace Disc

variable {first second : Disc Rat} {radius : Rat}

/-- The points of the plane inside the rim of a disc. -/
def interior (radius : Rat) (disc : Disc Rat) : Set (ℝ × ℝ) :=
  {point | (point.1 - disc.centre.x) ^ 2 + (point.2 - disc.centre.y) ^ 2 < (radius : ℝ) ^ 2}

/-- A point of a disc is closer to the centre than the radius, across and down. -/
theorem abs_lt_of_mem_interior {disc : Disc Rat} {point : ℝ × ℝ} (positive : 0 < radius)
    (member : point ∈ disc.interior radius) :
    |point.1 - disc.centre.x| < (radius : ℝ) ∧ |point.2 - disc.centre.y| < (radius : ℝ) := by
  have inDisc : (point.1 - disc.centre.x) ^ 2 + (point.2 - disc.centre.y) ^ 2 < (radius : ℝ) ^ 2 :=
    member
  have nonnegative : (0 : ℝ) ≤ radius := by exact_mod_cast positive.le
  constructor
  · refine abs_lt_of_sq_lt_sq (lt_of_le_of_lt ?_ inDisc) nonnegative
    exact le_add_of_nonneg_right (sq_nonneg _)
  · refine abs_lt_of_sq_lt_sq (lt_of_le_of_lt ?_ inDisc) nonnegative
    exact le_add_of_nonneg_left (sq_nonneg _)

/-- What is close to both of two numbers shows that they are close to each other. -/
theorem abs_sub_lt {radius first second : Rat} {point : ℝ} (nearFirst : |point - first| < radius)
    (nearSecond : |point - second| < radius) : |second - first| < 2 * radius := by
  have near : |(second : ℝ) - first| < 2 * radius := by
    rw [abs_lt] at nearFirst nearSecond ⊢
    constructor <;> linarith
  exact_mod_cast near

/-- Discs whose centres are two radii apart in one direction do not overlap. -/
theorem disjoint_interior (positive : 0 < radius)
    (apart : 2 * radius ≤ |second.centre.x - first.centre.x| ∨
      2 * radius ≤ |second.centre.y - first.centre.y|) :
    Disjoint (first.interior radius) (second.interior radius) := by
  refine Set.disjoint_left.mpr fun point inFirst inSecond => ?_
  obtain ⟨acrossFirst, downFirst⟩ := abs_lt_of_mem_interior positive inFirst
  obtain ⟨acrossSecond, downSecond⟩ := abs_lt_of_mem_interior positive inSecond
  rcases apart with across | down
  · exact absurd (abs_sub_lt acrossFirst acrossSecond) (not_lt.mpr across)
  · exact absurd (abs_sub_lt downFirst downSecond) (not_lt.mpr down)

end Disc

/-! ### Slots -/

namespace PageStyle

variable {style : PageStyle Rat} {upper lower : Point Rat} {slot slots : Nat}

theorem start_curve (style : PageStyle Rat) (upper lower : Point Rat) (slot slots : Nat) :
    (style.curve upper slot slots lower).start.x =
      upper.x + ((slot + 1 : Nat) : Rat) / ((slots + 1 : Nat) : Rat) * 2 * style.radius -
        style.radius := rfl

/-- A curve starts strictly between the sides of its upper disc. -/
theorem start_curve_inside (positive : 0 < style.radius) (bound : slot < slots) :
    upper.x - style.radius < (style.curve upper slot slots lower).start.x ∧
      (style.curve upper slot slots lower).start.x < upper.x + style.radius := by
  rw [start_curve]
  have some : (0 : Rat) < ((slot + 1 : Nat) : Rat) / ((slots + 1 : Nat) : Rat) := by positivity
  have notAll : ((slot + 1 : Nat) : Rat) / ((slots + 1 : Nat) : Rat) < 1 := by
    rw [div_lt_one (by positivity)]
    exact_mod_cast Nat.succ_lt_succ bound
  have left := mul_pos some positive
  have right := mul_lt_mul_of_pos_right notAll positive
  constructor <;> linarith

/-- The slots follow each other from the left to the right. -/
theorem start_curve_lt (positive : 0 < style.radius) {first second : Nat} (less : first < second)
    (upper lower other : Point Rat) (slots : Nat) :
    (style.curve upper first slots lower).start.x <
      (style.curve upper second slots other).start.x := by
  rw [start_curve, start_curve]
  have shares : ((first + 1 : Nat) : Rat) / ((slots + 1 : Nat) : Rat) <
      ((second + 1 : Nat) : Rat) / ((slots + 1 : Nat) : Rat) := by
    refine div_lt_div_of_pos_right ?_ (by positivity)
    exact_mod_cast Nat.succ_lt_succ less
  have scaled := mul_lt_mul_of_pos_right shares positive
  linarith

end PageStyle

/-! ### The page -/

namespace Layout

variable {layout : Layout Rat} {style : PageStyle Rat} {placed first second : PlacedNode Rat}

/-- Nothing collides in a drawing, and everything lies on its page. There is a disc for each node,
and no two discs overlap; all discs keep the padding to the sides of the page, and on each side there
is one that keeps no more. There is a curve for each edge; it starts at the level of the lower rim of
its upper disc, strictly between the sides of this disc and to the right of the curves to the
arguments before, and it ends at the top of its lower disc, no higher than it starts. -/
structure Uncrowded (style : PageStyle Rat) (layout : Layout Rat) (page : Page Rat) : Prop where
  discs : page.discs.map Disc.label = layout.nodes.toList.map PlacedNode.label
  apart : page.discs.Pairwise fun first second =>
    Disjoint (first.interior style.radius) (second.interior style.radius)
  inside : ∀ disc ∈ page.discs,
    style.padding ≤ disc.centre.x - style.radius ∧
      disc.centre.x + style.radius ≤ page.width - style.padding ∧
      style.padding ≤ disc.centre.y - style.radius ∧
      disc.centre.y + style.radius ≤ page.height - style.padding
  left : ∃ disc ∈ page.discs, disc.centre.x - style.radius = style.padding
  right : ∃ disc ∈ page.discs, disc.centre.x + style.radius = page.width - style.padding
  top : ∃ disc ∈ page.discs, disc.centre.y - style.radius = style.padding
  bottom : ∃ disc ∈ page.discs, disc.centre.y + style.radius = page.height - style.padding
  curves : page.curves.length = layout.edges.length
  edge : ∀ (index upper lower position : Nat),
    layout.edges[index]? = some (upper, lower, position) →
    ∃ curve above below, page.curves[index]? = some curve ∧ page.discs[upper]? = some above ∧
      page.discs[lower]? = some below ∧
      curve.start.y = above.centre.y + style.radius ∧
      above.centre.x - style.radius < curve.start.x ∧
      curve.start.x < above.centre.x + style.radius ∧
      curve.finish = ⟨below.centre.x, below.centre.y - style.radius⟩ ∧
      curve.start.y ≤ curve.finish.y
  slots : ∀ (first second upper lower other position next : Nat) (left right : Curve Rat),
    layout.edges[first]? = some (upper, lower, position) →
    layout.edges[second]? = some (upper, other, next) → position < next →
    page.curves[first]? = some left → page.curves[second]? = some right →
    left.start.x < right.start.x

theorem x_disc (style : PageStyle Rat) (layout : Layout Rat) (placed : PlacedNode Rat) :
    (layout.disc style placed).centre.x = style.padding + style.radius +
      style.columnWidth * (placed.offset - layout.minOffset) := rfl

theorem y_disc (style : PageStyle Rat) (layout : Layout Rat) (placed : PlacedNode Rat) :
    (layout.disc style placed).centre.y = style.padding + style.radius +
      style.rowHeight * (placed.depth : Rat) := rfl

theorem height_page (style : PageStyle Rat) (layout : Layout Rat) :
    (layout.page style).height = style.rowHeight * ((layout.height - 1 : Nat) : Rat) +
      2 * (style.padding + style.radius) := rfl

theorem width_page (style : PageStyle Rat) (nonempty : 0 < layout.size) :
    (layout.page style).width = style.columnWidth * (layout.maxOffset - layout.minOffset) +
      2 * (style.padding + style.radius) := by
  have some : layout.isEmpty = false := by
    rwa [isEmpty, Array.isEmpty_eq_false_iff, ← Array.size_pos_iff]
  rw [page, width, if_neg (by simp [some])]
  rfl

/-! ### Outermost nodes -/

theorem exists_minOffset (nonempty : 0 < layout.size) :
    ∃ placed ∈ layout.nodes, placed.offset = layout.minOffset := by
  have some : layout.offsets ≠ [] := by
    simpa [offsets, size, Array.size_pos_iff] using nonempty
  have member := (List.min?_eq_some_iff.mp (Coordinate.min?_eq_least some)).1
  obtain ⟨placed, inNodes, same⟩ := List.mem_map.mp member
  exact ⟨placed, Array.mem_toList_iff.mp inNodes, same⟩

theorem exists_maxOffset (nonempty : 0 < layout.size) :
    ∃ placed ∈ layout.nodes, placed.offset = layout.maxOffset := by
  have some : layout.offsets ≠ [] := by
    simpa [offsets, size, Array.size_pos_iff] using nonempty
  have member := (List.max?_eq_some_iff.mp (Coordinate.max?_eq_greatest some)).1
  obtain ⟨placed, inNodes, same⟩ := List.mem_map.mp member
  exact ⟨placed, Array.mem_toList_iff.mp inNodes, same⟩

theorem minOffset_le (member : placed ∈ layout.nodes) : layout.minOffset ≤ placed.offset :=
  Coordinate.least_le (List.mem_map_of_mem (Array.mem_toList_iff.mpr member))

theorem le_maxOffset (member : placed ∈ layout.nodes) : placed.offset ≤ layout.maxOffset :=
  Coordinate.le_greatest (List.mem_map_of_mem (Array.mem_toList_iff.mpr member))

/-! ### Distances of discs -/

/-- Of two nodes, the discs are two radii apart in one direction. -/
theorem Separated.apart_discs (separated : layout.Separated) {left right : Nat} (less : left < right)
    (foundLeft : layout.nodes[left]? = some first)
    (foundRight : layout.nodes[right]? = some second) (positive : 0 < style.radius)
    (columns : 2 * style.radius ≤ style.columnWidth) (rows : 2 * style.radius ≤ style.rowHeight) :
    2 * style.radius ≤
        |(layout.disc style second).centre.x - (layout.disc style first).centre.x| ∨
      2 * style.radius ≤
        |(layout.disc style second).centre.y - (layout.disc style first).centre.y| := by
  rw [x_disc, x_disc, y_disc, y_disc]
  by_cases sameDepth : first.depth = second.depth
  · left
    have clear : first.offset + 1 ≤ second.offset :=
      separated.clear left right first second less foundLeft foundRight sameDepth
    have wide : style.columnWidth * 1 ≤ style.columnWidth * (second.offset - first.offset) :=
      mul_le_mul_of_nonneg_left (by linarith) (by linarith)
    refine le_trans ?_ (le_abs_self _)
    linarith
  · right
    have high : style.rowHeight * 1 ≤
        style.rowHeight * |(second.depth : Rat) - first.depth| := by
      refine mul_le_mul_of_nonneg_left ?_ (by linarith)
      have different : (second.depth : Int) - first.depth ≠ 0 := by omega
      exact_mod_cast Int.one_le_abs different
    rw [add_sub_add_left_eq_sub, ← mul_sub, abs_mul, abs_of_nonneg (by linarith : 0 ≤ style.rowHeight)]
    linarith

/-- All discs keep the padding to the sides of the page. -/
theorem padding_disc (nonempty : 0 < layout.size) (member : placed ∈ layout.nodes)
    (columns : 0 ≤ style.columnWidth) (rows : 0 ≤ style.rowHeight) :
    style.padding ≤ (layout.disc style placed).centre.x - style.radius ∧
      (layout.disc style placed).centre.x + style.radius ≤
        (layout.page style).width - style.padding ∧
      style.padding ≤ (layout.disc style placed).centre.y - style.radius ∧
      (layout.disc style placed).centre.y + style.radius ≤
        (layout.page style).height - style.padding := by
  have fromLeft : 0 ≤ style.columnWidth * (placed.offset - layout.minOffset) :=
    mul_nonneg columns (sub_nonneg.mpr (minOffset_le member))
  have fromRight : style.columnWidth * (placed.offset - layout.minOffset) ≤
      style.columnWidth * (layout.maxOffset - layout.minOffset) :=
    mul_le_mul_of_nonneg_left (sub_le_sub_right (le_maxOffset member) _) columns
  have fromTop : 0 ≤ style.rowHeight * (placed.depth : Rat) :=
    mul_nonneg rows placed.depth.cast_nonneg
  have fromBottom : style.rowHeight * (placed.depth : Rat) ≤
      style.rowHeight * ((layout.height - 1 : Nat) : Rat) := by
    refine mul_le_mul_of_nonneg_left ?_ rows
    exact_mod_cast Nat.le_sub_one_of_lt (lt_height_iff.mpr ⟨placed, member, le_refl _⟩)
  rw [x_disc, y_disc, width_page style nonempty, height_page]
  exact ⟨by linarith, by linarith, by linarith, by linarith⟩

/-! ### Curves -/

/-- The curve of an edge, with the discs that it joins. -/
theorem Spanned.curve_eq (spanned : layout.Spanned) (style : PageStyle Rat)
    {upper lower position : Nat} (member : (upper, lower, position) ∈ layout.edges) :
    ∃ above below, layout.nodes[upper]? = some above ∧ layout.nodes[lower]? = some below ∧
      lower ∈ above.children ∧ position < above.children.length ∧
      layout.curve style (upper, lower, position) =
        style.curve (layout.disc style above).centre position above.children.length
          (layout.disc style below).centre := by
  obtain ⟨above, foundAbove, isSlot⟩ := spanned.slot member
  have isChild := List.mem_of_getElem? isSlot
  have foundBelow := Array.getElem?_eq_getElem
    (spanned.children_lt above (Array.mem_of_getElem? foundAbove) lower isChild)
  refine ⟨above, _, foundAbove, foundBelow, isChild, (List.getElem?_eq_some_iff.mp isSlot).1, ?_⟩
  rw [curve, centreAt_eq style foundAbove, centreAt_eq style foundBelow, foundAbove]
  rfl

theorem getElem?_discs (style : PageStyle Rat) {place : Nat}
    (found : layout.nodes[place]? = some placed) :
    (layout.page style).discs[place]? = some (layout.disc style placed) := by
  rw [page, List.getElem?_map, Array.getElem?_toList, found, Option.map_some]

theorem getElem?_curves (style : PageStyle Rat) {index : Nat} {edge : Nat × Nat × Nat}
    (found : layout.edges[index]? = some edge) :
    (layout.page style).curves[index]? = some (layout.curve style edge) := by
  rw [page, List.getElem?_map, found, Option.map_some]

/-- A curve does not rise: the lower disc begins where the upper one ends, or below. -/
theorem Graded.curve_falls (graded : layout.Graded) (member : first ∈ layout.nodes) {lower : Nat}
    (isChild : lower ∈ first.children) (found : layout.nodes[lower]? = some second)
    (rows : 2 * style.radius ≤ style.rowHeight) (positive : 0 < style.radius) :
    (layout.disc style first).centre.y + style.radius ≤
      (layout.disc style second).centre.y - style.radius := by
  have deeper : (first.depth : Rat) + 1 ≤ second.depth := by
    exact_mod_cast graded.deeper first member lower isChild second found
  have falls := mul_le_mul_of_nonneg_left deeper (by linarith : 0 ≤ style.rowHeight)
  rw [y_disc, y_disc]
  linarith

/-! ### Uncrowded pages -/

theorem Separated.uncrowded (separated : layout.Separated) (spanned : layout.Spanned)
    (graded : layout.Graded) (positive : 0 < style.radius)
    (columns : 2 * style.radius ≤ style.columnWidth) (rows : 2 * style.radius ≤ style.rowHeight) :
    layout.Uncrowded style (layout.page style) where
  discs := by
    rw [page, List.map_map]
    rfl
  apart := by
    refine List.pairwise_map.mpr (List.pairwise_iff_getElem.mpr
      fun left right inLeft inRight less => ?_)
    refine Disc.disjoint_interior positive (separated.apart_discs less ?_ ?_ positive columns rows)
    · rw [← Array.getElem?_toList, List.getElem?_eq_getElem]
    · rw [← Array.getElem?_toList, List.getElem?_eq_getElem]
  inside disc member := by
    obtain ⟨placed, inNodes, rfl⟩ := List.mem_map.mp member
    exact padding_disc spanned.rootNode (Array.mem_toList_iff.mp inNodes) (by linarith)
      (by linarith)
  left := by
    obtain ⟨placed, member, same⟩ := exists_minOffset spanned.rootNode
    refine ⟨_, List.mem_map_of_mem (Array.mem_toList_iff.mpr member), ?_⟩
    rw [x_disc, same]
    ring
  right := by
    obtain ⟨placed, member, same⟩ := exists_maxOffset spanned.rootNode
    refine ⟨_, List.mem_map_of_mem (Array.mem_toList_iff.mpr member), ?_⟩
    rw [x_disc, same, width_page style spanned.rootNode]
    ring
  top := by
    obtain ⟨placed, member, depth⟩ := graded.rows 0 spanned.height_pos
    refine ⟨_, List.mem_map_of_mem (Array.mem_toList_iff.mpr member), ?_⟩
    rw [y_disc, depth, Nat.cast_zero]
    ring
  bottom := by
    have positive := spanned.height_pos
    obtain ⟨placed, member, depth⟩ := graded.rows (layout.height - 1) (by omega)
    refine ⟨_, List.mem_map_of_mem (Array.mem_toList_iff.mpr member), ?_⟩
    rw [y_disc, height_page, depth]
    ring
  curves := List.length_map _
  edge index upper lower position found := by
    obtain ⟨above, below, foundAbove, foundBelow, isChild, slot, same⟩ :=
      spanned.curve_eq style (List.mem_of_getElem? found)
    have falls := graded.curve_falls (Array.mem_of_getElem? foundAbove) isChild foundBelow rows
      positive
    obtain ⟨fromLeft, fromRight⟩ := PageStyle.start_curve_inside positive slot
    exact ⟨_, _, _, (getElem?_curves style found).trans (congrArg some same),
      getElem?_discs style foundAbove, getElem?_discs style foundBelow, rfl, fromLeft, fromRight,
      rfl, falls⟩
  slots first second upper lower other position next left right foundFirst foundSecond less
      foundLeft foundRight := by
    obtain ⟨above, _, foundAbove, _, _, _, sameLeft⟩ :=
      spanned.curve_eq style (List.mem_of_getElem? foundFirst)
    obtain ⟨_, _, again, _, _, _, sameRight⟩ :=
      spanned.curve_eq style (List.mem_of_getElem? foundSecond)
    obtain rfl := Option.some.inj (foundAbove.symm.trans again)
    obtain rfl := Option.some.inj ((getElem?_curves style foundFirst).symm.trans foundLeft)
    obtain rfl := Option.some.inj ((getElem?_curves style foundSecond).symm.trans foundRight)
    rw [sameLeft, sameRight]
    exact PageStyle.start_curve_lt positive less _ _ _ _

end Layout

/-! ### Texts -/

/-- Vector drawings are free of collisions and stay inside their pages: whatever text is converted,
whenever the discs have a size and a column and a row have room for one, no two discs overlap, all of
them keep exactly the padding to the sides of the page, and every curve leaves the lower rim of its
upper disc in the order of the arguments and comes down on the top of its lower disc. -/
theorem page_uncrowded {source : String} {layout : Layout Rat} {style : PageStyle Rat}
    (converted : convert source = .ok layout) (positive : 0 < style.radius)
    (columns : 2 * style.radius ≤ style.columnWidth) (rows : 2 * style.radius ≤ style.rowHeight) :
    ∃ page, layout.page? style = some page ∧ layout.Uncrowded style page := by
  obtain ⟨_, _, _, _, _, laid, displays⟩ := displays_of_convert converted
  have spanned := displays.spanned laid
  exact ⟨_, spanned.page?_eq style, (displays.separated laid).uncrowded spanned
    (displays.graded laid) positive columns rows⟩

/-- The measures that hold where nothing else is said, as exact numbers. -/
def usualStyle : PageStyle Rat where
  columnWidth := 80
  rowHeight := 120
  radius := 24
  fontSize := 20
  padding := 40

theorem page_uncrowded_twoRows :
    0 < usualStyle.radius ∧ 2 * usualStyle.radius ≤ usualStyle.columnWidth ∧
      2 * usualStyle.radius ≤ usualStyle.rowHeight ∧
      ∃ layout : Layout Rat, convert twoRows = .ok layout ∧
        ∃ page, layout.page? usualStyle = some page ∧ layout.Uncrowded usualStyle page := by
  obtain ⟨layout, converted⟩ := twoRows_converted Rat
  have positive : 0 < usualStyle.radius := by decide
  have columns : 2 * usualStyle.radius ≤ usualStyle.columnWidth := by norm_num [usualStyle]
  have rows : 2 * usualStyle.radius ≤ usualStyle.rowHeight := by norm_num [usualStyle]
  exact ⟨positive, columns, rows, layout, converted,
    page_uncrowded converted positive columns rows⟩

end ExprDiagram
