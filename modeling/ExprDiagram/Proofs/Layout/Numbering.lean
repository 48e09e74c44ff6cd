/-
This file follows a diagram without circles to its layout. All nodes that can be reached from the
root stand in one tree; the layout lists the nodes in the order of that tree, and calls each by its
place in the list. This does not depend on what numbers the positions are; when they are exact, they
are those of the plain drawing of the tree.
-/

import ExprDiagram.Conversion
import ExprDiagram.Proofs.Diagram.Adoption
import ExprDiagram.Proofs.Diagram.Sketching
import ExprDiagram.Proofs.Diagram.Ways
import ExprDiagram.Proofs.Placement.Equivalence
import ExprDiagram.Proofs.Placement.Shape
import ExprDiagram.Proofs.Trees.Subtrees
import Mathlib

namespace ExprDiagram

open Relation RoseTree

/-! ### Lists of optional values -/

theorem mapM_ok {α β : Type} {change : α → Option β} {items : List α}
    (each : ∀ item ∈ items, ∃ result, change item = some result) :
    ∃ results, items.mapM change = some results := by
  induction items with
  | nil => exact ⟨[], rfl⟩
  | cons item rest inductionHypothesis =>
    obtain ⟨result, here⟩ := each item List.mem_cons_self
    obtain ⟨results, others⟩ := inductionHypothesis
      fun other member => each other (List.mem_cons_of_mem _ member)
    exact ⟨result :: results, by rw [List.mapM_cons, here, others]; rfl⟩

theorem getElem?_mapM {α β : Type} {change : α → Option β} {items : List α} {results : List β}
    (computed : items.mapM change = some results) (index : Nat) :
    results[index]? = items[index]?.bind change := by
  induction items generalizing results index with
  | nil =>
    obtain rfl := Option.some.inj computed
    rfl
  | cons item rest inductionHypothesis =>
    rw [List.mapM_cons] at computed
    obtain ⟨result, here, remaining⟩ := Option.bind_eq_some_iff.mp computed
    obtain ⟨others, later, same⟩ := Option.bind_eq_some_iff.mp remaining
    obtain rfl := Option.some.inj same
    cases index with
    | zero => exact here.symm
    | succ index => exact inductionHypothesis later index

theorem length_mapM {α β : Type} {change : α → Option β} {items : List α} {results : List β}
    (computed : items.mapM change = some results) : results.length = items.length := by
  induction items generalizing results with
  | nil =>
    obtain rfl := Option.some.inj computed
    rfl
  | cons item rest inductionHypothesis =>
    rw [List.mapM_cons] at computed
    obtain ⟨result, _, remaining⟩ := Option.bind_eq_some_iff.mp computed
    obtain ⟨others, later, same⟩ := Option.bind_eq_some_iff.mp remaining
    obtain rfl := Option.some.inj same
    rw [List.length_cons, List.length_cons, inductionHypothesis later]

theorem mapM_idxOf? {order nodes : List Nat} (inside : nodes ⊆ order) :
    nodes.mapM (order.idxOf? ·) = some (nodes.map (order.idxOf ·)) := by
  induction nodes with
  | nil => rfl
  | cons node rest inductionHypothesis =>
    have here : order.idxOf? node = some (order.idxOf node) := by
      rw [List.idxOf_eq_getD_idxOf?]
      cases found : order.idxOf? node with
      | none => exact absurd (inside List.mem_cons_self) (List.idxOf?_eq_none_iff.mp found)
      | some index => rfl
    rw [List.mapM_cons, here, inductionHypothesis (List.cons_subset.mp inside).2]
    rfl

namespace Arrangement

variable {α : Type} {arrangement : Arrangement α} {tree : RoseTree Nat} {node : Nat}

/-! ### Diagrams without circles -/

/-- The parts of an arrangement fit together. -/
structure Laid [Coordinate α] (arrangement : Arrangement α) (tree : RoseTree Nat) : Prop where
  children : arrangement.children = arrangement.diagram.graph.childLists
  deep : Deep arrangement.children arrangement.diagram.root arrangement.depth
  spanning : Spanning arrangement.children arrangement.diagram.root arrangement.depth
    arrangement.below tree
  placed : Frames.ofTree? arrangement.below arrangement.diagram.root = some arrangement.frames
  positioned : arrangement.frames.positions? arrangement.below arrangement.diagram.root =
    some arrangement.offset
  frames_offset : arrangement.frames.offset.size = arrangement.below.size
  frames_shift : arrangement.frames.shift.size = arrangement.below.size
  frames_thread : arrangement.frames.thread.size = arrangement.below.size
  offset : arrangement.offset.size = arrangement.below.size

/-- A diagram whose edges lead down can be laid out. That the nodes of its tree get positions is
known of exact numbers and carries over to all others. -/
theorem ofDiagram_laid (α : Type) [Coordinate α] {diagram : Diagram} {rank : Nat → Nat}
    (down : diagram.graph.LeadsDown rank) (bound : diagram.root < diagram.graph.size) :
    ∃ (arrangement : Arrangement α) (tree : RoseTree Nat), ofDiagram diagram = .ok arrangement ∧
      arrangement.diagram = diagram ∧ arrangement.Laid tree := by
  have inLists : diagram.root < diagram.graph.childLists.size :=
    diagram.graph.size_childLists.symm ▸ bound
  obtain ⟨depth, depths, deep⟩ := depths?_deep down.descending inLists
  obtain ⟨below, tree, selected, spanning⟩ := selectBelowBy?_spanning down.descending deep inLists
  obtain ⟨exact, placedExact, sized, settled⟩ :=
    Frames.ofTree?_settled spanning.listed spanning.distinct
  have positionsExact := Frames.positions?_eq settled sized spanning.listed spanning.distinct
  rw [spanning.top] at placedExact positionsExact
  have placements : Option.Rel Frames.Alike
      (Frames.ofTree? below diagram.root : Option (Frames Rat))
      (Frames.ofTree? below diagram.root : Option (Frames α)) :=
    Frames.ofTree?_alike below diagram.root
  rw [placedExact] at placements
  generalize placed : (Frames.ofTree? below diagram.root : Option (Frames α)) = result at placements
  cases placements with
  | @some _ frames alike =>
    have positions := alike.positions? below diagram.root
    rw [positionsExact] at positions
    generalize positioned : frames.positions? below diagram.root = result at positions
    cases positions with
    | @some _ offset size =>
      refine ⟨⟨diagram, diagram.graph.childLists, depth, below, frames, offset⟩, tree, ?_, rfl, rfl,
        deep, spanning, placed, positioned, alike.offset.symm.trans sized.offset,
        alike.shift.symm.trans sized.shift, alike.size.symm.trans sized.thread,
        size.symm.trans Array.size_ofFn⟩
      rw [ofDiagram, if_pos down.isAcyclic]
      simp only [depths, selected, placed, positioned, Option.bind_eq_bind, Option.bind_some]
      rfl

/-- Exact positions are those of the plain drawing. -/
theorem Laid.offset_eq {arrangement : Arrangement Rat} (laid : arrangement.Laid tree) :
    arrangement.offset = plainOffsets arrangement.below.size tree := by
  obtain ⟨frames, placed, positioned⟩ :=
    Frames.ofTree?_positions laid.spanning.listed laid.spanning.distinct
  rw [laid.spanning.top] at placed positioned
  obtain rfl := Option.some.inj (laid.placed.symm.trans placed)
  exact Option.some.inj (laid.positioned.symm.trans positioned)

/-! ### Nodes of the layout -/

/-- The node of a layout that stands for a node of the diagram. -/
structure Shows (arrangement : Arrangement α) (tree : RoseTree Nat) (node : Nat)
    (placed : PlacedNode α) : Prop where
  shown : arrangement.diagram.graph.nodes[node]? = some ⟨placed.label, placed.kind⟩
  depth : placed.depth = level arrangement.depth node
  offset : arrangement.offset[node]? = some placed.offset
  children : ∃ nodes, arrangement.children[node]? = some nodes ∧ nodes ⊆ tree.values ∧
    placed.children = nodes.map (tree.values.idxOf ·)
  below : ∃ nodes, arrangement.below[node]? = some nodes ∧ nodes ⊆ tree.values ∧
    placed.below = nodes.map (tree.values.idxOf ·)

variable [Coordinate α]

theorem Laid.order?_eq (laid : arrangement.Laid tree) : arrangement.order? = some tree.values := by
  rw [order?, ← laid.spanning.top, preOrder?_eq laid.spanning.listed laid.spanning.distinct]

/-- The root comes first in the order of the tree. -/
theorem Laid.idxOf_root (laid : arrangement.Laid tree) :
    tree.values.idxOf arrangement.diagram.root = 0 := by
  rw [← laid.spanning.top]
  obtain ⟨top, children⟩ := tree
  exact List.idxOf_cons_self

/-- When all nodes of a diagram can be reached, the tree has all of them. -/
theorem Laid.mem_values_iff (laid : arrangement.Laid tree)
    (reaches : ∀ node < arrangement.diagram.graph.size,
      ReflTransGen (Step arrangement.diagram.graph.childLists) arrangement.diagram.root node) :
    node ∈ tree.values ↔ node < arrangement.diagram.graph.size := by
  constructor
  · intro member
    have bound := laid.spanning.listed.values_lt node member
    rwa [laid.spanning.size, laid.children, Graph.size_childLists] at bound
  · intro bound
    exact (laid.spanning.mem_iff node).mpr (laid.children ▸ reaches node bound)

/-- Every node of the tree is placed. -/
theorem placedNode?_shows (laid : arrangement.Laid tree) (member : node ∈ tree.values) (id : Nat) :
    ∃ placed, arrangement.placedNode? tree.values id node = some placed ∧ placed.id = id ∧
      arrangement.Shows tree node placed := by
  have spanning := laid.spanning
  have reaches := (spanning.mem_iff node).mp member
  have inBelow := spanning.listed.values_lt node member
  have inChildren : node < arrangement.children.size := spanning.size ▸ inBelow
  have inGraph : node < arrangement.diagram.graph.nodes.size := by
    rw [laid.children, Graph.size_childLists] at inChildren
    exact inChildren
  have shown := Array.getElem?_eq_getElem inGraph
  have depth : arrangement.depth[node]? = some (level arrangement.depth node) :=
    getElem?_depth (laid.deep.size.symm ▸ inChildren)
  have inOffset : node < arrangement.offset.size := laid.offset.symm ▸ inBelow
  have offset := Array.getElem?_eq_getElem inOffset
  have children := Array.getElem?_eq_getElem inChildren
  have childrenInside : arrangement.children[node] ⊆ tree.values := fun child inNodes =>
    (spanning.mem_iff child).mpr (reaches.tail ⟨_, children, inNodes⟩)
  obtain ⟨lower, below, belowInside⟩ := spanning.listed.below_subset node member
  have lowerInside := List.Subset.trans belowInside tree.valuesAll_children_subset
  generalize shownNode : arrangement.diagram.graph.nodes[node] = source at shown
  generalize nodesBelow : arrangement.children[node] = nodes at children childrenInside
  generalize arrangement.offset[node] = position at offset
  refine ⟨⟨id, source.label, source.kind, level arrangement.depth node, position,
    nodes.map (tree.values.idxOf ·), lower.map (tree.values.idxOf ·)⟩, ?_, rfl, shown, rfl, offset,
    ⟨nodes, children, childrenInside, rfl⟩, lower, below, lowerInside, rfl⟩
  rw [placedNode?]
  simp only [shown, depth, offset, children, below, mapM_idxOf? childrenInside,
    mapM_idxOf? lowerInside, Option.bind_eq_bind, Option.bind_some]
  rfl

/-- A layout shows the nodes of the tree in their order. -/
structure Displays (arrangement : Arrangement α) (tree : RoseTree Nat) (layout : Layout α) :
    Prop where
  root : layout.root = 0
  size : layout.size = tree.values.length
  node : ∀ (id node : Nat), tree.values[id]? = some node →
    ∃ placed, layout.nodes[id]? = some placed ∧ placed.id = id ∧ arrangement.Shows tree node placed

/-- There is a layout, and it shows the nodes of the tree. -/
theorem layout?_displays (laid : arrangement.Laid tree) :
    ∃ layout : Layout α, arrangement.layout? = some layout ∧ arrangement.Displays tree layout := by
  have each : ∀ item ∈ tree.values.zipIdx, ∃ placed,
      arrangement.placedNode? tree.values item.2 item.1 = some placed := by
    intro item member
    obtain ⟨placed, here, _⟩ := placedNode?_shows laid (List.fst_mem_of_mem_zipIdx member) item.2
    exact ⟨placed, here⟩
  obtain ⟨nodes, computed⟩ := mapM_ok each
  have entries : ∀ id : Nat, nodes[id]? =
      tree.values[id]?.bind (arrangement.placedNode? tree.values id) := by
    intro id
    rw [getElem?_mapM computed, List.getElem?_zipIdx, Option.bind_map]
    congr 1
    funext node
    show arrangement.placedNode? tree.values (0 + id) node = _
    rw [Nat.zero_add]
  have size : nodes.length = tree.values.length := by
    rw [length_mapM computed, List.length_zipIdx]
  refine ⟨⟨0, nodes.toArray⟩, ?_, rfl, size, fun id node here => ?_⟩
  · rw [layout?, laid.order?_eq]
    show (do
      let nodes ← tree.values.zipIdx.mapM fun item : Nat × Nat =>
        arrangement.placedNode? tree.values item.2 item.1
      some (Layout.mk 0 nodes.toArray)) = _
    rw [computed]
    rfl
  · obtain ⟨placed, found, shown⟩ := placedNode?_shows laid (List.mem_of_getElem? here) id
    refine ⟨placed, ?_, shown⟩
    show nodes.toArray[id]? = some placed
    rw [List.getElem?_toArray, entries, here, Option.bind_some, found]

variable {layout : Layout α}

omit [Coordinate α] in
/-- Every node of the layout stands for the node of the tree at its place. -/
theorem Displays.shows (displays : arrangement.Displays tree layout) {id : Nat}
    {placed : PlacedNode α} (found : layout.nodes[id]? = some placed) :
    ∃ bound : id < tree.values.length, placed.id = id ∧
      arrangement.Shows tree tree.values[id] placed := by
  have bound : id < tree.values.length :=
    displays.size ▸ (Array.getElem?_eq_some_iff.mp found).1
  obtain ⟨same, foundSame, shown⟩ := displays.node id _ (List.getElem?_eq_getElem bound)
  obtain rfl := Option.some.inj (found.symm.trans foundSame)
  exact ⟨bound, shown⟩

end Arrangement

/-! ### Numbers -/

/-- The numbers of a layout are the places of its nodes in the order of the tree that hangs below
the root. -/
structure Layout.Ordered {α : Type} (layout : Layout α) (tree : RoseTree Nat) : Prop where
  top : tree.value = layout.root
  listed : tree.ListedIn (layout.nodes.map PlacedNode.below)
  values : tree.values = List.range layout.size

/-- The tree of a layout is that of the arrangement with new numbers. -/
theorem Arrangement.Displays.ordered {α : Type} [Coordinate α] {arrangement : Arrangement α}
    {tree : RoseTree Nat} {layout : Layout α} (displays : arrangement.Displays tree layout)
    (laid : arrangement.Laid tree) : layout.Ordered (tree.map (tree.values.idxOf ·)) := by
  have spanning := laid.spanning
  refine ⟨?_, ?_, ?_⟩
  · rw [value_map, displays.root, spanning.top]
    exact laid.idxOf_root
  · refine spanning.listed.map fun node member nodes below => ?_
    obtain ⟨placed, found, _, shown⟩ := displays.node _ node (List.getElem?_idxOf member)
    obtain ⟨others, belowOthers, _, numbered⟩ := shown.below
    obtain rfl := Option.some.inj (below.symm.trans belowOthers)
    rw [Array.getElem?_map, found, Option.map_some, numbered]
  · rw [values_map, displays.size]
    refine List.ext_getElem ?_ fun index _ _ => ?_
    · rw [List.length_map, List.length_range]
    · rw [List.getElem_map, List.getElem_range]
      exact spanning.distinct.idxOf_getElem index _

/-! ### Layouts of programs -/

/-- A diagram that was made from a program is laid out: the program has a layout, which shows the
nodes of a tree that spans the diagram. -/
theorem Layout.ofProgram_displays (α : Type) [Coordinate α] {program : Program} {diagram : Diagram}
    (drawn : Diagram.ofProgram program = .ok diagram) :
    ∃ (arrangement : Arrangement α) (tree : RoseTree Nat) (layout : Layout α),
      Arrangement.ofDiagram diagram = .ok arrangement ∧ arrangement.diagram = diagram ∧
      Layout.ofProgram program = .ok layout ∧ arrangement.Laid tree ∧
      arrangement.Displays tree layout := by
  obtain ⟨down, bound⟩ := Diagram.ofProgram_downward drawn
  obtain ⟨arrangement, tree, arranged, same, laid⟩ := Arrangement.ofDiagram_laid α down bound
  obtain ⟨layout, computed, displays⟩ := Arrangement.layout?_displays laid
  refine ⟨arrangement, tree, layout, arranged, same, ?_, laid, displays⟩
  rw [Layout.ofProgram, drawn]
  show (do
    let arrangement ← Arrangement.ofDiagram diagram
    inRange arrangement.layout?) = _
  rw [arranged]
  show inRange arrangement.layout? = _
  rw [computed]
  rfl

/-- A text that has a layout is a program with this layout. -/
theorem convert_eq_ok {α : Type} [Coordinate α] {source : String} {layout : Layout α}
    (converted : convert source = .ok layout) :
    ∃ program, parse source = .ok program ∧ Layout.ofProgram program = .ok layout := by
  obtain ⟨program, parsed, laidOut⟩ := Except.bind_eq_ok converted
  refine ⟨program, ?_, ?_⟩
  · cases outcome : parse source with
    | error error =>
      rw [outcome] at parsed
      cases parsed
    | ok other =>
      rw [outcome] at parsed
      cases parsed
      rfl
  · cases outcome : (Layout.ofProgram program : Except DrawError (Layout α)) with
    | error error =>
      rw [outcome] at laidOut
      cases laidOut
    | ok other =>
      rw [outcome] at laidOut
      cases laidOut
      rfl

/-- The layout of a text shows the nodes of a tree that spans the diagram of its program. -/
theorem displays_of_convert {α : Type} [Coordinate α] {source : String} {layout : Layout α}
    (converted : convert source = .ok layout) :
    ∃ (program : Program) (arrangement : Arrangement α) (tree : RoseTree Nat),
      parse source = .ok program ∧ Diagram.ofProgram program = .ok arrangement.diagram ∧
      arrangement.Laid tree ∧ arrangement.Displays tree layout := by
  obtain ⟨program, parsed, computed⟩ := convert_eq_ok converted
  obtain ⟨diagram, drawn, _⟩ := Except.bind_eq_ok computed
  obtain ⟨arrangement, tree, other, _, rfl, computedOther, laid, displays⟩ :=
    Layout.ofProgram_displays α drawn
  obtain rfl := Except.ok.inj (computed.symm.trans computedOther)
  exact ⟨program, arrangement, tree, parsed, drawn, laid, displays⟩

theorem convert_of_parse {α : Type} [Coordinate α] {source : String} {program : Program}
    {layout : Layout α} (parsed : parse source = .ok program)
    (computed : Layout.ofProgram program = .ok layout) : convert source = .ok layout := by
  rw [convert, parsed]
  show (Layout.ofProgram program).mapError ConversionError.draw = _
  rw [computed]
  rfl

/-- A text in which a defined name is used in two rows, so that it hangs from the lower one. -/
def twoRows : String := "(define v x) (g (f v y) v)"

/-- The program of that text. -/
def twoRowsProgram : Program :=
  ⟨⟨#[.primitive "x" .symbol, .var "v" 0, .primitive "y" .symbol, .call "f" [1, 2],
    .call "g" [3, 1]]⟩, ⟨[("v", 1)]⟩, 4⟩

theorem twoRows_parsed : parse twoRows = .ok twoRowsProgram := by
  have tokens : tokenize twoRows = [.openParen, .identifier "define", .identifier "v",
      .identifier "x", .closeParen, .openParen, .identifier "g", .openParen, .identifier "f",
      .identifier "v", .identifier "y", .closeParen, .identifier "v", .closeParen] := by
    rw [tokenize, twoRows]
    simp [cut, isBlank, isWordCharacter, Token.ofWord, List.takeWhile, List.dropWhile]
  rw [parse, tokens]
  rfl

/-- The exact layout of that text. -/
def twoRowsLayout : Layout Rat where
  root := 0
  nodes := #[⟨0, "g", .call, 0, 0, [1, 2], [1]⟩, ⟨1, "f", .call, 1, 0, [2, 4], [2, 4]⟩,
    ⟨2, "v", .var, 2, -1 / 2, [3], [3]⟩, ⟨3, "x", .symbol, 3, -1 / 2, [], []⟩,
    ⟨4, "y", .symbol, 2, 1 / 2, [], []⟩]

theorem twoRowsProgram_laidOut : Layout.ofProgram twoRowsProgram = .ok twoRowsLayout := by
  cbv

theorem twoRows_converted_exact : convert twoRows = .ok twoRowsLayout :=
  convert_of_parse twoRows_parsed twoRowsProgram_laidOut

theorem twoRows_converted (α : Type) [Coordinate α] :
    ∃ layout : Layout α, convert twoRows = .ok layout := by
  have ordered : twoRowsProgram.arena.Ordered := by decide
  obtain ⟨_, drawn⟩ := Diagram.ofProgram_ok (ordered.inRange (by decide)) ordered.acyclic
  obtain ⟨_, _, layout, _, _, computed, _⟩ := Layout.ofProgram_displays α drawn
  exact ⟨layout, convert_of_parse twoRows_parsed computed⟩

end ExprDiagram
