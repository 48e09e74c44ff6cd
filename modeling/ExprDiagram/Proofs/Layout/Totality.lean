/-
This file shows that nothing but a mistake in the text keeps it from being laid out and written. A
program that was parsed is tidy, so that it is drawn as a diagram without circles, and a diagram
without circles has a layout, which can be written in every form. On the way no number is looked up
outside a list and nothing is taken away from less.
-/

import ExprDiagram.Proofs.Diagram.Depiction
import ExprDiagram.Proofs.Diagram.Selection
import ExprDiagram.Proofs.Diagram.Stacking
import ExprDiagram.Proofs.Layout.Rendering

namespace ExprDiagram

open Relation RoseTree

variable {α : Type}

/-! ### Numbers within their lists -/

/-- All lists of an arrangement have an entry for each node of the graph, and hold numbers of nodes
only. The depths are computed along an order of nodes, and every node is given a new number. -/
structure Arrangement.InBounds (arrangement : Arrangement α) : Prop where
  root : arrangement.diagram.root < arrangement.diagram.graph.size
  edges : ∀ edge ∈ arrangement.diagram.graph.edges,
    edge.source < arrangement.diagram.graph.size ∧ edge.target < arrangement.diagram.graph.size
  children_size : arrangement.children.size = arrangement.diagram.graph.size
  children : ∀ nodes ∈ arrangement.children, ∀ child ∈ nodes, child < arrangement.diagram.graph.size
  depth_size : arrangement.depth.size = arrangement.diagram.graph.size
  depth_lt : ∀ level ∈ arrangement.depth, level < arrangement.diagram.graph.size
  depth_order : ∃ order, topological? arrangement.children [arrangement.diagram.root] = some order ∧
    ∀ node ∈ order, node < arrangement.diagram.graph.size
  below_size : arrangement.below.size = arrangement.diagram.graph.size
  below : ∀ nodes ∈ arrangement.below, ∀ child ∈ nodes, child < arrangement.diagram.graph.size
  frames : arrangement.frames.offset.size = arrangement.diagram.graph.size ∧
    arrangement.frames.shift.size = arrangement.diagram.graph.size ∧
    arrangement.frames.thread.size = arrangement.diagram.graph.size
  offset_size : arrangement.offset.size = arrangement.diagram.graph.size
  numbered : ∃ order, arrangement.order? = some order ∧
    order.Perm (List.range arrangement.diagram.graph.size)

namespace Arrangement

/-- With fewer nodes than there are machine words, depths may as well be machine words. -/
theorem InBounds.selectBelow?_eq {arrangement : Arrangement α} (inBounds : arrangement.InBounds)
    (few : arrangement.diagram.graph.size < wordCount) :
    selectBelow? arrangement.diagram.root arrangement.children arrangement.depth =
      selectBelowBy? (· + 1) arrangement.diagram.root arrangement.children arrangement.depth :=
  ExprDiagram.selectBelow?_eq
    (fun level member => Nat.lt_of_le_of_lt (inBounds.depth_lt level member) few) _ _

variable [Coordinate α] {arrangement : Arrangement α} {tree : RoseTree Nat}
variable {nodes : List Nat} {child : Nat}

theorem Laid.size_children (laid : arrangement.Laid tree) :
    arrangement.children.size = arrangement.diagram.graph.size := by
  rw [laid.children, Graph.size_childLists]

theorem Laid.size_below (laid : arrangement.Laid tree) :
    arrangement.below.size = arrangement.diagram.graph.size :=
  laid.spanning.size.trans laid.size_children

theorem Laid.children_lt (laid : arrangement.Laid tree)
    (down : Sketch.Downward arrangement.diagram.graph) (member : nodes ∈ arrangement.children)
    (inNodes : child ∈ nodes) : child < arrangement.diagram.graph.size := by
  obtain ⟨node, inLists, rfl⟩ := Array.getElem_of_mem member
  have descending : Descending arrangement.children id := laid.children ▸ down.descending
  exact laid.size_children ▸
    descending.bound node child ⟨_, Array.getElem?_eq_getElem inLists, inNodes⟩

/-- The walk that gives the depths keeps to the nodes: it begins at the root and follows edges. -/
theorem Laid.exists_order (laid : arrangement.Laid tree)
    (down : Sketch.Downward arrangement.diagram.graph)
    (bound : arrangement.diagram.root < arrangement.diagram.graph.size) :
    ∃ order, topological? arrangement.children [arrangement.diagram.root] = some order ∧
      ∀ node ∈ order, node < arrangement.diagram.graph.size := by
  have descending : Descending arrangement.children id := laid.children ▸ down.descending
  have inLists : ∀ node ∈ [arrangement.diagram.root], node < arrangement.children.size :=
    List.forall_mem_singleton.mpr (laid.size_children.symm ▸ bound)
  obtain ⟨order, computed, _, _, reached⟩ := topological?_forward descending inLists
  refine ⟨order, computed, fun node member => ?_⟩
  obtain ⟨start, inStarts, reaches⟩ := reached node member
  exact laid.size_children ▸ descending.lt_of_reaches (inLists start inStarts) reaches

section

variable (reaches : ∀ node < arrangement.diagram.graph.size,
  ReflTransGen (Step arrangement.diagram.graph.childLists) arrangement.diagram.root node)

include reaches

theorem Laid.below_lt (laid : arrangement.Laid tree) (member : nodes ∈ arrangement.below)
    (inNodes : child ∈ nodes) : child < arrangement.diagram.graph.size := by
  obtain ⟨node, inLists, rfl⟩ := Array.getElem_of_mem member
  have inTree : node ∈ tree.values :=
    (laid.mem_values_iff reaches).mpr (laid.size_below ▸ inLists)
  obtain ⟨others, found, inside⟩ := laid.spanning.listed.below_subset node inTree
  obtain rfl := Option.some.inj ((Array.getElem?_eq_getElem inLists).symm.trans found)
  exact (laid.mem_values_iff reaches).mp (tree.valuesAll_children_subset (inside inNodes))

/-- Each node has its place in the order of the tree. -/
theorem Laid.values_perm (laid : arrangement.Laid tree) :
    tree.values.Perm (List.range arrangement.diagram.graph.size) := by
  refine (List.perm_ext_iff_of_nodup laid.spanning.distinct List.nodup_range).mpr fun node => ?_
  rw [laid.mem_values_iff reaches, List.mem_range]

/-- A node stands in a row of the tree, and no tree has more rows than nodes. -/
theorem Laid.depth_lt (laid : arrangement.Laid tree) {level : Nat}
    (member : level ∈ arrangement.depth) : level < arrangement.diagram.graph.size := by
  obtain ⟨node, bound, rfl⟩ := Array.getElem_of_mem member
  have inTree : node ∈ tree.values := (laid.mem_values_iff reaches).mpr
    ((laid.deep.size.trans laid.size_children) ▸ bound)
  obtain ⟨row, inRow⟩ := exists_row inTree
  have here : arrangement.depth[node] = row := by
    rw [← laid.spanning.rows row node inRow, level, Array.getElem?_eq_getElem bound,
      Option.getD_some]
  have high : row < tree.height := row_ne_nil_iff.mp (List.ne_nil_of_mem inRow)
  have few := (laid.values_perm reaches).length_eq
  rw [List.length_range] at few
  exact here ▸ few ▸ Nat.lt_of_lt_of_le high tree.height_le_length

theorem Laid.inBounds (laid : arrangement.Laid tree)
    (down : Sketch.Downward arrangement.diagram.graph)
    (bound : arrangement.diagram.root < arrangement.diagram.graph.size) : arrangement.InBounds where
  root := bound
  edges edge member := ⟨(down edge member).1, (down edge member).2.1⟩
  children_size := laid.size_children
  children _ member _ := laid.children_lt down member
  depth_size := laid.deep.size.trans laid.size_children
  depth_lt _ := laid.depth_lt reaches
  depth_order := laid.exists_order down bound
  below_size := laid.size_below
  below _ member _ := laid.below_lt reaches member
  frames := ⟨laid.frames_offset.trans laid.size_below, laid.frames_shift.trans laid.size_below,
    laid.frames_thread.trans laid.size_below⟩
  offset_size := laid.offset.trans laid.size_below
  numbered := ⟨tree.values, laid.order?_eq, laid.values_perm reaches⟩

end

end Arrangement

/-! ### Conversion -/

theorem convert_of_error [Coordinate α] {source : String} {cause : ParseError}
    (parsed : parse source = .error cause) :
    (convert source : Except ConversionError (Layout α)) = .error (.parse cause) := by
  rw [convert, parsed]
  rfl

/-- Every text is no program, or it is laid out and written in every form. In the second case its
program is drawn by stacks none of whose steps fails, the arrangement of the diagram keeps within
its lists, and what the drawings take away from columns and rows is there. Nothing but the memory for
the grid of a drawing with characters can then be missing. -/
theorem convert_total (source : String) :
    (∃ cause, parse source = .error cause ∧
      (convert source : Except ConversionError (Layout Float)) = .error (.parse cause) ∧
      ∀ config, renderSource config source = .error (.parse cause)) ∨
    ∃ (program : Program) (arrangement : Arrangement Float) (layout : Layout Float),
      parse source = .ok program ∧ Diagram.ofProgram program = .ok arrangement.diagram ∧
      (∃ sketch, sketch.graph = arrangement.diagram.graph ∧
        Stacks.Runs program.arena (.start program.root)
          ⟨sketch, [], [arrangement.diagram.root], []⟩) ∧
      (∀ state, Stacks.Runs program.arena (.start program.root) state →
        ∃ next, state.step program.arena = .ok next) ∧
      Arrangement.ofDiagram arrangement.diagram = .ok arrangement ∧ arrangement.InBounds ∧
      convert source = .ok layout ∧
      (∀ style, layout.Drawable style ∧ ∃ text, layout.chart? style = some text) ∧
      ∀ config, (config.format = .ascii → (Chart.ofLayout config.chart layout).Storable) →
        ∃ text, layout.render config = .ok text ∧ renderSource config source = .ok text := by
  cases parsed : parse source with
  | error cause =>
    refine .inl ⟨cause, rfl, convert_of_error parsed, fun config => ?_⟩
    rw [renderSource, convert_of_error parsed]
    rfl
  | ok program =>
    have tidy := tidy_of_parse parsed
    obtain ⟨diagram, drawn⟩ := Diagram.ofProgram_ok
      (tidy.ordered.inRange (tidy.bound program.root List.mem_cons_self)) tidy.ordered.acyclic
    obtain ⟨down, bound⟩ := Diagram.ofProgram_downward drawn
    obtain ⟨shown, depicts⟩ := Diagram.ofProgram_depicts drawn
    obtain ⟨runs, steps⟩ := Diagram.ofProgram_stacks drawn
    obtain ⟨arrangement, tree, layout, arranged, rfl, computed, laid, displays⟩ :=
      Layout.ofProgram_displays Float drawn
    have converted := convert_of_parse parsed computed
    have spanned := displays.spanned laid
    have graded := displays.graded laid
    refine .inr ⟨program, arrangement, layout, rfl, drawn, runs, steps, arranged,
      laid.inBounds (fun _ => depicts.reaches) down bound, converted,
      fun style => ⟨spanned.drawable graded style, spanned.exists_chart graded style⟩,
      fun config room => ?_⟩
    obtain ⟨text, rendered⟩ := spanned.exists_render graded config room
    refine ⟨text, rendered, ?_⟩
    rw [renderSource, converted]
    show (layout.render config).mapError ConversionError.draw = _
    rw [rendered]
    rfl

end ExprDiagram
