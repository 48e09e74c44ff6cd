/-
This file shows what the numbers and the depths of every layout are. The numbers count the nodes
along the tree that hangs below the root, so that a subtree has consecutive numbers, and each node
but the root hangs below one node; the depth of a node is the number of edges on the longest way to
it, and along the tree every step leads to the next row. Nothing here depends on the positions.
-/

import ExprDiagram.Proofs.Layout.Numbering

namespace ExprDiagram

open Relation RoseTree

/-! ### Consecutive numbers -/

/-- What stands next to each other in a range are consecutive numbers. -/
theorem eq_range'_of_infix {first size : Nat} {rest : List Nat}
    (inside : first :: rest <:+: List.range size) :
    first :: rest = List.range' first (first :: rest).length := by
  obtain ⟨before, after, split⟩ := inside
  have place : ∀ index (bound : index < (first :: rest).length),
      (first :: rest)[index] = before.length + index := by
    intro index bound
    have found : (List.range size)[before.length + index]? = some (first :: rest)[index] := by
      rw [← split, List.append_assoc, List.getElem?_append_right (Nat.le_add_right _ _),
        Nat.add_sub_cancel_left, List.getElem?_append_left bound, List.getElem?_eq_getElem bound]
    obtain ⟨_, same⟩ := List.getElem?_eq_some_iff.mp found
    rw [← same, List.getElem_range]
  have top : first = before.length := place 0 (Nat.succ_pos _)
  refine List.ext_getElem List.length_range'.symm fun index bound _ => ?_
  rw [place index bound, List.getElem_range', Nat.one_mul, ← top]

namespace Layout

variable {α : Type} {layout : Layout α} {tree : RoseTree Nat}

/-! ### Numbered trees -/

/-- The numbers of a layout are those of a tree. All of them are places of nodes; the children that
hang below a node are some of its children, in the order in which they first stand among them; the
numbers without the root's stand once in the lists of hanging children; and a node and all that
hangs below it have consecutive numbers. -/
structure Spanned (layout : Layout α) : Prop where
  root : layout.root = 0
  rootNode : 0 < layout.size
  numbers : ∀ (id : Nat) (placed : PlacedNode α), layout.nodes[id]? = some placed → placed.id = id
  children_lt : ∀ placed ∈ layout.nodes, ∀ child ∈ placed.children, child < layout.size
  below_lt : ∀ placed ∈ layout.nodes, ∀ child ∈ placed.below, child < layout.size
  chosen : ∀ placed ∈ layout.nodes, Chosen placed.below placed.children
  once : (layout.nodes.toList.flatMap PlacedNode.below).Perm (List.range' 1 (layout.size - 1))
  preorder : preOrder? (layout.nodes.map PlacedNode.below) layout.root =
    some (List.range layout.size)
  subtrees : ∃ tree, layout.Ordered tree ∧
    (∀ id < layout.size, ∃ depth small, Subtree depth small tree ∧ small.value = id) ∧
    ∀ depth small, Subtree depth small tree →
      small.values = List.range' small.value small.values.length

theorem Ordered.once (ordered : layout.Ordered tree) :
    (layout.nodes.toList.flatMap PlacedNode.below).Perm (List.range' 1 (layout.size - 1)) := by
  obtain ⟨top, children⟩ := tree
  have values := ordered.values
  have count : layout.size - 1 + 1 = layout.size := by
    have length := congrArg List.length values
    rw [List.length_range] at length
    rw [← length]
    rfl
  have others : valuesAll children = List.range' 1 (layout.size - 1) := by
    rw [List.range_eq_range', ← count, List.range'_succ] at values
    exact (List.cons.inj values).2
  have lists : (List.range layout.size).flatMap (list (layout.nodes.map PlacedNode.below)) =
      layout.nodes.toList.flatMap PlacedNode.below := flatMap_list_range _ _
  rw [← lists, ← ordered.values, ← others]
  exact ordered.listed.lists_perm

theorem Ordered.preorder (ordered : layout.Ordered tree) :
    preOrder? (layout.nodes.map PlacedNode.below) layout.root = some (List.range layout.size) := by
  have distinct : tree.values.Nodup := ordered.values ▸ List.nodup_range
  rw [← ordered.top, preOrder?_eq ordered.listed distinct, ordered.values]

theorem Ordered.consecutive (ordered : layout.Ordered tree) {depth : Nat} {small : RoseTree Nat}
    (subtree : Subtree depth small tree) :
    small.values = List.range' small.value small.values.length := by
  have inside := subtree.values_infix
  rw [ordered.values] at inside
  obtain ⟨top, children⟩ := small
  exact eq_range'_of_infix inside

/-! ### Longest ways -/

/-- The nodes from which an edge leads to a node. -/
def parents (layout : Layout α) (id : Nat) : List (PlacedNode α) :=
  layout.nodes.toList.filter fun placed => id ∈ placed.children

/-- The depths of a layout are the lengths of the longest ways from the root. Every edge leads to a
deeper node, the depth of a node other than the root is one more than the largest depth of its
parents, and that is also one more than the depth of the node that it hangs below; no row is
empty. -/
structure Graded (layout : Layout α) : Prop where
  root : ∀ placed, layout.nodes[layout.root]? = some placed → placed.depth = 0
  deeper : ∀ upper ∈ layout.nodes, ∀ child ∈ upper.children, ∀ lower,
    layout.nodes[child]? = some lower → upper.depth < lower.depth
  longest : ∀ (id : Nat) (placed : PlacedNode α), layout.nodes[id]? = some placed →
    id ≠ layout.root →
    ((layout.parents id).map fun parent => parent.depth + 1).max? = some placed.depth
  below : ∀ upper ∈ layout.nodes, ∀ child ∈ upper.below, ∀ lower,
    layout.nodes[child]? = some lower → lower.depth = upper.depth + 1
  rows : ∀ depth < layout.height, ∃ placed ∈ layout.nodes, placed.depth = depth

theorem lt_foldl_height {nodes : List (PlacedNode α)} {height depth : Nat} :
    depth < nodes.foldl (fun height node => max height (node.depth + 1)) height ↔
      depth < height ∨ ∃ placed ∈ nodes, depth ≤ placed.depth := by
  induction nodes generalizing height with
  | nil =>
    exact ⟨.inl, fun either => either.resolve_right fun ⟨_, member, _⟩ => (by cases member)⟩
  | cons first rest inductionHypothesis =>
    rw [List.foldl_cons, inductionHypothesis, lt_max_iff, Nat.lt_succ_iff, or_assoc,
      List.exists_mem_cons_iff]

/-- The rows of a layout are those down to its deepest node. -/
theorem lt_height_iff {depth : Nat} :
    depth < layout.height ↔ ∃ placed ∈ layout.nodes, depth ≤ placed.depth := by
  rw [height, ← Array.foldl_toList, lt_foldl_height]
  simp only [Nat.not_lt_zero, false_or, Array.mem_toList_iff]

end Layout

namespace Arrangement

variable {α : Type} [Coordinate α] {arrangement : Arrangement α} {tree : RoseTree Nat}
variable {layout : Layout α} {placed upper lower : PlacedNode α} {id child : Nat}

/-! ### Nodes and their children -/

omit [Coordinate α] in
theorem Displays.depth_eq (displays : arrangement.Displays tree layout) {node : Nat}
    (member : node ∈ tree.values) (found : layout.nodes[tree.values.idxOf node]? = some placed) :
    placed.depth = level arrangement.depth node := by
  obtain ⟨same, foundSame, _, shown⟩ := displays.node _ node (List.getElem?_idxOf member)
  obtain rfl := Option.some.inj (found.symm.trans foundSame)
  exact shown.depth

omit [Coordinate α] in
/-- A placed node stands for a node of the tree. -/
theorem Displays.exists_node (displays : arrangement.Displays tree layout)
    (member : placed ∈ layout.nodes) :
    ∃ node ∈ tree.values, arrangement.Shows tree node placed := by
  obtain ⟨id, bound, rfl⟩ := Array.getElem_of_mem member
  obtain ⟨inTree, _, shown⟩ := displays.shows (Array.getElem?_eq_getElem bound)
  exact ⟨_, List.getElem_mem inTree, shown⟩

omit [Coordinate α] in
/-- The children of a placed node stand for the children of its node. -/
theorem Shows.exists_child {node : Nat} (shown : arrangement.Shows tree node placed)
    (member : child ∈ placed.children) :
    ∃ target ∈ tree.values, Step arrangement.children node target ∧
      tree.values.idxOf target = child := by
  obtain ⟨nodes, found, inside, numbered⟩ := shown.children
  rw [numbered] at member
  obtain ⟨target, inNodes, same⟩ := List.mem_map.mp member
  exact ⟨target, inside inNodes, ⟨nodes, found, inNodes⟩, same⟩

omit [Coordinate α] in
theorem Displays.idxOf_lt (displays : arrangement.Displays tree layout) {node : Nat}
    (member : node ∈ tree.values) : tree.values.idxOf node < layout.size :=
  displays.size ▸ List.idxOf_lt_length_iff.mpr member

theorem Displays.chosen (displays : arrangement.Displays tree layout)
    (laid : arrangement.Laid tree) (member : placed ∈ layout.nodes) :
    Chosen placed.below placed.children := by
  obtain ⟨node, inTree, shown⟩ := displays.exists_node member
  obtain ⟨nodes, children, inside, numbered⟩ := shown.children
  obtain ⟨lower, below, _, numberedBelow⟩ := shown.below
  obtain ⟨others, belowOthers, chosen⟩ := laid.spanning.chosen node inTree nodes children
  obtain rfl := Option.some.inj (below.symm.trans belowOthers)
  rw [numbered, numberedBelow]
  exact chosen.map fun first inNodes _ _ same => (List.idxOf_inj (inside inNodes)).mp same

/-! ### The tree and the depths of a layout -/

theorem Displays.spanned (displays : arrangement.Displays tree layout)
    (laid : arrangement.Laid tree) : layout.Spanned := by
  have ordered := displays.ordered laid
  have children_lt : ∀ placed ∈ layout.nodes, ∀ child ∈ placed.children, child < layout.size := by
    intro placed member child inChildren
    obtain ⟨_, _, shown⟩ := displays.exists_node member
    obtain ⟨target, inTree, _, rfl⟩ := shown.exists_child inChildren
    exact displays.idxOf_lt inTree
  refine ⟨displays.root, ?_, fun id placed found => (displays.shows found).2.1, children_lt, ?_,
    fun placed => displays.chosen laid, ordered.once, ordered.preorder, _, ordered,
    fun id bound => ?_, fun depth small => ordered.consecutive⟩
  · rw [displays.size]
    exact List.length_pos_of_mem tree.value_mem_values
  · intro placed member child inBelow
    exact children_lt placed member child ((displays.chosen laid member).subset inBelow)
  · exact exists_subtree (ordered.values ▸ List.mem_range.mpr bound)

theorem Displays.deeper (displays : arrangement.Displays tree layout)
    (laid : arrangement.Laid tree) (member : upper ∈ layout.nodes)
    (inChildren : child ∈ upper.children) (found : layout.nodes[child]? = some lower) :
    upper.depth < lower.depth := by
  obtain ⟨node, inTree, shown⟩ := displays.exists_node member
  obtain ⟨target, targetInTree, step, rfl⟩ := shown.exists_child inChildren
  rw [displays.depth_eq targetInTree found, shown.depth]
  exact laid.deep.lower node ((laid.spanning.mem_iff node).mp inTree) target step

/-- A node other than the root has a parent directly above it, and none that is deeper. -/
theorem Displays.longest (displays : arrangement.Displays tree layout)
    (laid : arrangement.Laid tree) (found : layout.nodes[id]? = some placed) (other : id ≠ 0) :
    ((layout.parents id).map fun parent => parent.depth + 1).max? = some placed.depth := by
  have spanning := laid.spanning
  obtain ⟨bound, _, shown⟩ := displays.shows found
  have inTree := List.getElem_mem bound
  have number : tree.values.idxOf tree.values[id] = id := spanning.distinct.idxOf_getElem id bound
  refine List.max?_eq_some_iff.mpr ⟨List.mem_map.mpr ?_, fun depth member => ?_⟩
  · have notRoot : tree.values[id] ≠ arrangement.diagram.root := by
      intro same
      rw [same, laid.idxOf_root] at number
      exact other number.symm
    obtain ⟨node, reaches, step, directly⟩ :=
      laid.deep.tight tree.values[id] ((spanning.mem_iff _).mp inTree) notRoot
    obtain ⟨parent, parentFound, _, parentShown⟩ :=
      displays.node _ node (List.getElem?_idxOf ((spanning.mem_iff node).mpr reaches))
    obtain ⟨nodes, children, inNodes⟩ := step
    obtain ⟨others, childrenOthers, _, numbered⟩ := parentShown.children
    obtain rfl := Option.some.inj (children.symm.trans childrenOthers)
    refine ⟨parent, List.mem_filter.mpr
      ⟨Array.mem_toList_iff.mpr (Array.mem_of_getElem? parentFound), decide_eq_true ?_⟩, ?_⟩
    · rw [numbered]
      exact List.mem_map.mpr ⟨_, inNodes, number⟩
    · rw [parentShown.depth, shown.depth, directly]
  · obtain ⟨parent, inParents, rfl⟩ := List.mem_map.mp member
    obtain ⟨inNodes, inChildren⟩ := List.mem_filter.mp inParents
    exact displays.deeper laid (Array.mem_toList_iff.mp inNodes) (of_decide_eq_true inChildren)
      found

theorem Displays.depth_below (displays : arrangement.Displays tree layout)
    (laid : arrangement.Laid tree) (member : upper ∈ layout.nodes)
    (inBelow : child ∈ upper.below) (found : layout.nodes[child]? = some lower) :
    lower.depth = upper.depth + 1 := by
  have spanning := laid.spanning
  obtain ⟨node, inTree, shown⟩ := displays.exists_node member
  obtain ⟨nodes, below, inside, numbered⟩ := shown.below
  rw [numbered] at inBelow
  obtain ⟨target, inNodes, rfl⟩ := List.mem_map.mp inBelow
  obtain ⟨row, inRow⟩ := exists_row inTree
  have inNext := spanning.listed.row_below inRow below inNodes
  rw [displays.depth_eq (inside inNodes) found, shown.depth, spanning.rows row node inRow,
    spanning.rows (row + 1) target inNext]

/-- Above a node that stands in a row, every row has a node of the tree. -/
theorem Displays.rows (displays : arrangement.Displays tree layout)
    (laid : arrangement.Laid tree) {depth : Nat} (bound : depth < layout.height) :
    ∃ placed ∈ layout.nodes, placed.depth = depth := by
  have spanning := laid.spanning
  obtain ⟨deep, member, above⟩ := Layout.lt_height_iff.mp bound
  obtain ⟨node, inTree, shown⟩ := displays.exists_node member
  obtain ⟨row, inRow⟩ := exists_row inTree
  rw [shown.depth, spanning.rows row node inRow] at above
  have lower : row < tree.height := row_ne_nil_iff.mp (List.ne_nil_of_mem inRow)
  obtain ⟨other, inDepth⟩ :=
    List.exists_mem_of_ne_nil _ (row_ne_nil_iff.mpr (Nat.lt_of_le_of_lt above lower))
  have otherInTree := row_subset_values depth tree inDepth
  obtain ⟨placed, found, _, shownOther⟩ :=
    displays.node _ other (List.getElem?_idxOf otherInTree)
  refine ⟨placed, Array.mem_of_getElem? found, ?_⟩
  rw [shownOther.depth, spanning.rows depth other inDepth]

theorem Displays.graded (displays : arrangement.Displays tree layout)
    (laid : arrangement.Laid tree) : layout.Graded := by
  refine ⟨fun placed found => ?_, fun upper member child inChildren lower =>
    displays.deeper laid member inChildren, fun id placed found other =>
    displays.longest laid found (displays.root ▸ other), fun upper member child inBelow lower =>
    displays.depth_below laid member inBelow, fun depth => displays.rows laid⟩
  have first : tree.values.idxOf arrangement.diagram.root = layout.root := by
    rw [displays.root, laid.idxOf_root]
  have inTree : arrangement.diagram.root ∈ tree.values :=
    (laid.spanning.mem_iff _).mpr .refl
  rw [displays.depth_eq inTree (first ▸ found)]
  exact laid.deep.level_root

end Arrangement

/-! ### Layouts of programs -/

/-- Every layout is a numbered tree with the lengths of the longest ways as depths. A program whose
numbers are in range, and none of whose expressions contains itself, has such a layout; and so is
every layout that a text is converted to. -/
theorem layout_spanned (α : Type) [Coordinate α] :
    (∀ program : Program, program.InRange → program.Acyclic →
      ∃ layout : Layout α, Layout.ofProgram program = .ok layout ∧ layout.Spanned ∧ layout.Graded) ∧
    ∀ (source : String) (layout : Layout α), convert source = .ok layout →
      layout.Spanned ∧ layout.Graded := by
  refine ⟨fun program inRange acyclic => ?_, fun source layout converted => ?_⟩
  · obtain ⟨diagram, drawn⟩ := Diagram.ofProgram_ok inRange acyclic
    obtain ⟨_, _, layout, _, _, computed, laid, displays⟩ := Layout.ofProgram_displays α drawn
    exact ⟨layout, computed, displays.spanned laid, displays.graded laid⟩
  · obtain ⟨program, _, computed⟩ := convert_eq_ok converted
    obtain ⟨diagram, drawn, _⟩ := Except.bind_eq_ok computed
    obtain ⟨_, _, other, _, _, computedOther, laid, displays⟩ :=
      Layout.ofProgram_displays α drawn
    obtain rfl := Except.ok.inj (computed.symm.trans computedOther)
    exact ⟨displays.spanned laid, displays.graded laid⟩

theorem layout_spanned_twoRows :
    twoRowsProgram.InRange ∧ twoRowsProgram.Acyclic ∧
      Layout.ofProgram twoRowsProgram = .ok twoRowsLayout ∧ convert twoRows = .ok twoRowsLayout ∧
      (twoRowsLayout.Spanned ∧ twoRowsLayout.Graded) ∧
      ∃ layout : Layout Rat, Layout.ofProgram twoRowsProgram = .ok layout ∧
        layout.Spanned ∧ layout.Graded := by
  have ordered : twoRowsProgram.arena.Ordered := by decide
  have inRange := ordered.inRange (by decide)
  exact ⟨inRange, ordered.acyclic, twoRowsProgram_laidOut, twoRows_converted_exact,
    (layout_spanned Rat).2 twoRows twoRowsLayout twoRows_converted_exact,
    (layout_spanned Rat).1 twoRowsProgram inRange ordered.acyclic⟩

end ExprDiagram
