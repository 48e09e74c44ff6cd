/-
This file shows that nothing overlaps in a layout. The rows of the plain drawing keep their
distances, and the depths of the nodes are the rows of the tree that the drawing was made from; so of
two nodes of one depth, the one that comes later in the order of the tree stands to the right of the
other, and whole subtrees stay apart in every row that both reach.
-/

import ExprDiagram.Proofs.Layout.Numbering

namespace ExprDiagram

open RoseTree

/-! ### Separated layouts -/

namespace Layout

/-- For each number, the numbers of the nodes that hang below its node. -/
def belowLists (layout : Layout Rat) : Array (List Nat) := layout.nodes.map PlacedNode.below

/-- One node stands to the left of the other, at least the separation away. -/
def Clear (layout : Layout Rat) (left right : Nat) : Prop :=
  ∀ first second, layout.nodes[left]? = some first → layout.nodes[right]? = some second →
    first.offset + separation ≤ second.offset

/-- The numbers of a layout are the places of its nodes in the order of the tree that hangs below
the root, and its depths are the rows of this tree. -/
structure Numbers (layout : Layout Rat) (tree : RoseTree Nat) : Prop where
  top : tree.value = layout.root
  listed : tree.ListedIn layout.belowLists
  values : tree.values = List.range layout.size
  rows : ∀ row, ∀ id ∈ tree.row row, ∃ placed, layout.nodes[id]? = some placed ∧ placed.depth = row

/-- Nothing overlaps in a layout: of two nodes of one depth the one with the larger number stands
clear of the other, numbers are given in the order of the tree, and subtrees that hang below one node
stand clear of each other in every row. -/
structure Separated (layout : Layout Rat) : Prop where
  clear : ∀ (left right : Nat) (first second : PlacedNode Rat), left < right →
    layout.nodes[left]? = some first → layout.nodes[right]? = some second →
    first.depth = second.depth → first.offset + separation ≤ second.offset
  preorder : preOrder? layout.belowLists layout.root = some (List.range layout.size)
  siblings : ∃ tree, layout.Numbers tree ∧ ∀ depth id subtrees,
    Subtree depth (.node id subtrees) tree → subtrees.Pairwise fun left right =>
      ∀ row, ∀ inLeft ∈ left.row row, ∀ inRight ∈ right.row row, layout.Clear inLeft inRight

variable {layout : Layout Rat} {tree : RoseTree Nat}

theorem Numbers.lt_of_siblings (numbers : layout.Numbers tree) {depth id : Nat}
    {subtrees : List (RoseTree Nat)} (subtree : Subtree depth (.node id subtrees) tree)
    {left right : RoseTree Nat} (siblings : [left, right].Sublist subtrees) {first second : Nat}
    (inLeft : first ∈ left.values) (inRight : second ∈ right.values) : first < second := by
  have ordered : tree.values.Pairwise (· < ·) := numbers.values ▸ List.pairwise_lt_range
  have inTree : (left.values ++ right.values).Sublist tree.values := by
    refine List.Sublist.trans ?_ subtree.values_sublist
    refine List.Sublist.trans ?_ (List.sublist_cons_self _ _)
    rw [← List.append_nil right.values]
    exact valuesAll_sublist siblings
  exact (List.pairwise_append.mp (ordered.sublist inTree)).2.2 first inLeft second inRight

/-- Subtrees side by side stay clear when the rows do. -/
theorem Numbers.separated (numbers : layout.Numbers tree)
    (clear : ∀ (left right : Nat) (first second : PlacedNode Rat), left < right →
      layout.nodes[left]? = some first → layout.nodes[right]? = some second →
      first.depth = second.depth → first.offset + separation ≤ second.offset) :
    layout.Separated := by
  have distinct : tree.values.Nodup := numbers.values ▸ List.nodup_range
  refine ⟨clear, ?_, tree, numbers, fun depth id subtrees subtree => ?_⟩
  · rw [← numbers.top, preOrder?_eq numbers.listed distinct, numbers.values]
  · refine List.pairwise_iff_forall_sublist.mpr fun {left right} siblings => ?_
    intro row first inLeft second inRight firstNode secondNode firstFound secondFound
    have less := numbers.lt_of_siblings subtree siblings (row_subset_values row left inLeft)
      (row_subset_values row right inRight)
    have inRow : ∀ child ∈ [left, right], ∀ id ∈ child.row row, ∀ placed,
        layout.nodes[id]? = some placed → placed.depth = depth + (row + 1) := by
      intro child member id inChild placed found
      have inTree := subtree.row_subset (row + 1)
        (List.mem_flatMap.mpr ⟨child, siblings.subset member, inChild⟩)
      obtain ⟨other, foundOther, depthOther⟩ := numbers.rows _ id inTree
      obtain rfl := Option.some.inj (found.symm.trans foundOther)
      exact depthOther
    refine clear first second firstNode secondNode less firstFound secondFound ?_
    rw [inRow left List.mem_cons_self first inLeft firstNode firstFound,
      inRow right (List.mem_cons_of_mem _ List.mem_cons_self) second inRight secondNode secondFound]

end Layout

/-! ### Positions -/

namespace Arrangement

/-- The position of a node in the drawing of a tree. -/
def position (tree : RoseTree Nat) (node : Nat) : Rat :=
  ((centred tree).values.lookup node).getD 0

end Arrangement

/-- In every row of a tree, the positions of the centred drawing keep their distance. -/
theorem row_apart (tree : RoseTree Nat) (distinct : tree.values.Nodup) (row : Nat) :
    (tree.row row).Pairwise fun left right =>
      Arrangement.position tree left + 1 ≤ Arrangement.position tree right := by
  have table : centred tree = tree.map fun id => (id, Arrangement.position tree id) := by
    have keys : ((centred tree).values.map Prod.fst).Nodup := by
      rwa [← values_map, ids_centred]
    have looked := eq_map_lookup keys 0
    rwa [ids_centred] at looked
  have apart : Apart (positionsAt row [centred tree]) := by
    rw [centred, positionsAt_translate]
    exact (plain_apart tree row).translate _
  rw [table, positionsAt, rowAll_singleton, row_map, List.map_map] at apart
  exact List.pairwise_map.mp apart

namespace Arrangement

variable {arrangement : Arrangement Rat} {tree : RoseTree Nat} {layout : Layout Rat}

/-- The nodes of an exact layout stand at the positions of the drawing. -/
theorem Displays.offset_eq (displays : arrangement.Displays tree layout)
    (laid : arrangement.Laid tree) {id : Nat} {placed : PlacedNode Rat}
    (found : layout.nodes[id]? = some placed) :
    ∃ bound : id < tree.values.length, placed.depth = level arrangement.depth tree.values[id] ∧
      placed.offset = position tree tree.values[id] := by
  obtain ⟨bound, _, shown⟩ := displays.shows found
  have inBelow := laid.spanning.listed.values_lt _ (List.getElem_mem bound)
  have offset := shown.offset
  rw [laid.offset_eq, plainOffsets, Array.getElem?_ofFn, dif_pos inBelow] at offset
  exact ⟨bound, shown.depth, (Option.some.inj offset).symm⟩

/-- The numbers of a layout are the places of its nodes in the tree. -/
theorem Displays.numbers (displays : arrangement.Displays tree layout) (laid : arrangement.Laid tree) :
    layout.Numbers (tree.map (tree.values.idxOf ·)) := by
  have ordered := displays.ordered laid
  refine ⟨ordered.top, ordered.listed, ordered.values, fun row id member => ?_⟩
  rw [row_map] at member
  obtain ⟨node, inRow, rfl⟩ := List.mem_map.mp member
  obtain ⟨placed, found, _, shown⟩ :=
    displays.node _ node (List.getElem?_idxOf (row_subset_values row tree inRow))
  exact ⟨placed, found, shown.depth.trans (laid.spanning.rows row node inRow)⟩

/-- Of two nodes of one depth, the one that comes later in the order stands clear of the other. -/
theorem Displays.separated (displays : arrangement.Displays tree layout)
    (laid : arrangement.Laid tree) : layout.Separated := by
  have spanning := laid.spanning
  have rowed : Rowed (level arrangement.depth) 0 tree := fun row id member =>
    (spanning.rows row id member).trans (Nat.zero_add row).symm
  have apart := rowed.pairwise_values (row_apart tree spanning.distinct)
  refine (displays.numbers laid).separated
    fun left right first second less leftFound rightFound sameDepth => ?_
  obtain ⟨leftBound, leftDepth, leftOffset⟩ := displays.offset_eq laid leftFound
  obtain ⟨rightBound, rightDepth, rightOffset⟩ := displays.offset_eq laid rightFound
  rw [leftOffset, rightOffset]
  rw [leftDepth, rightDepth] at sameDepth
  exact List.pairwise_iff_getElem.mp apart left right leftBound rightBound less sameDepth

end Arrangement

/-! ### Layouts of programs -/

/-- A diagram that was made from a program has a layout, which is separated. -/
theorem exists_layout_of_diagram {program : Program} {diagram : Diagram}
    (drawn : Diagram.ofProgram program = .ok diagram) :
    ∃ layout : Layout Rat, Layout.ofProgram program = .ok layout ∧ layout.Separated := by
  obtain ⟨_, _, layout, _, _, computed, laid, displays⟩ := Layout.ofProgram_displays Rat drawn
  exact ⟨layout, computed, displays.separated laid⟩

/-- Nothing overlaps in any layout. A program whose numbers are in range, and none of whose
expressions contains itself, has a layout, which is separated; and so is every layout that a text is
converted to. -/
theorem layout_separated :
    (∀ program : Program, program.InRange → program.Acyclic →
      ∃ layout : Layout Rat, Layout.ofProgram program = .ok layout ∧ layout.Separated) ∧
    ∀ (source : String) (layout : Layout Rat), convert source = .ok layout → layout.Separated := by
  refine ⟨fun program inRange acyclic => ?_, fun source layout converted => ?_⟩
  · obtain ⟨diagram, drawn⟩ := Diagram.ofProgram_ok inRange acyclic
    exact exists_layout_of_diagram drawn
  · obtain ⟨program, _, computed⟩ := convert_eq_ok converted
    obtain ⟨diagram, drawn, _⟩ := Except.bind_eq_ok computed
    obtain ⟨other, computedOther, separated⟩ := exists_layout_of_diagram drawn
    obtain rfl := Except.ok.inj (computed.symm.trans computedOther)
    exact separated

theorem layout_separated_twoRows :
    twoRowsProgram.InRange ∧ twoRowsProgram.Acyclic ∧
      Layout.ofProgram twoRowsProgram = .ok twoRowsLayout ∧ convert twoRows = .ok twoRowsLayout ∧
      twoRowsLayout.Separated ∧
      ∃ layout : Layout Rat, Layout.ofProgram twoRowsProgram = .ok layout ∧ layout.Separated := by
  have ordered : twoRowsProgram.arena.Ordered := by decide
  have inRange := ordered.inRange (by decide)
  exact ⟨inRange, ordered.acyclic, twoRowsProgram_laidOut, twoRows_converted_exact,
    layout_separated.2 twoRows twoRowsLayout twoRows_converted_exact,
    layout_separated.1 twoRowsProgram inRange ordered.acyclic⟩

end ExprDiagram
