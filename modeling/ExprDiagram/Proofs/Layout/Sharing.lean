/-
This file shows that the layout of a parsed program is the program itself: it has one node for each
expression that can be reached from the root, however often the expression is used, and the children
of the node are those of the expression. So a defined name that is used has one node, a definition
that is not used has none, and a layout is no larger than the text of its program.
-/

import ExprDiagram.Proofs.Diagram.Depiction
import ExprDiagram.Proofs.Layout.Numbering
import Mathlib.Data.Set.Function

namespace ExprDiagram

open Relation RoseTree

variable {α : Type}

/-! ### Layouts that depict a program -/

/-- The expressions that can be reached from the root. -/
def Program.reachable (program : Program) : Set ExprId :=
  {id | ReflTransGen program.arena.Holds program.root id}

namespace Layout

/-- The nodes of the layout are the expressions that can be reached, at the given places: a node
shows the label and the kind of its expression, and its children are those of the expression, in
their order and with repetitions. -/
structure Depicts (layout : Layout α) (program : Program) (place : ExprId → Nat) : Prop where
  bijection : Set.BijOn place program.reachable {index | index < layout.size}
  root : layout.root = 0 ∧ place program.root = 0
  node : ∀ id ∈ program.reachable, ∃ expr placed, program.arena.get? id = some expr ∧
    layout.nodes[place id]? = some placed ∧ placed.label = expr.label ∧
    placed.kind = expr.nodeKind ∧ placed.children = expr.children.map place

/-- The node at a place is that of a defined name. -/
def ShowsName (layout : Layout α) (name : String) (index : Nat) : Prop :=
  ∃ placed, layout.nodes[index]? = some placed ∧ placed.kind = .var ∧ placed.label = name

/-- A defined name that can be reached has one node, and no two nodes show one name. -/
structure NamesOnce (layout : Layout α) (program : Program) : Prop where
  reached : ∀ name, ∀ id ∈ program.reachable, program.bindings.lookup? name = some id →
    ∃! index, layout.ShowsName name index
  distinct : ∀ first second name, layout.ShowsName name first → layout.ShowsName name second →
    first = second

variable {layout : Layout α} {program : Program} {place : ExprId → Nat} {id : ExprId}

theorem nodeKind_eq_var_iff {expr : Expr} :
    expr.nodeKind = .var ↔ ∃ body, expr = .var expr.label body := by
  cases expr with
  | call => exact ⟨nofun, nofun⟩
  | primitive label kind => cases kind <;> exact ⟨nofun, nofun⟩
  | var name body => exact ⟨fun _ => ⟨body, rfl⟩, fun _ => rfl⟩

/-- The nodes of defined names are those of the variables that the names are bound to. -/
theorem Depicts.showsName_iff (depicts : layout.Depicts program place)
    (tidy : program.arena.Tidy program.bindings [program.root]) {name : String} {index : Nat} :
    layout.ShowsName name index ↔
      ∃ id ∈ program.reachable, program.bindings.lookup? name = some id ∧ place id = index := by
  constructor
  · rintro ⟨placed, found, kind, rfl⟩
    have bound : index < layout.size := (Array.getElem?_eq_some_iff.mp found).1
    obtain ⟨id, reached, rfl⟩ := depicts.bijection.surjOn bound
    obtain ⟨expr, same, stored, foundSame, label, sameKind, _⟩ := depicts.node id reached
    obtain rfl := Option.some.inj (found.symm.trans foundSame)
    obtain ⟨body, isVariable⟩ := nodeKind_eq_var_iff.mp (sameKind.symm.trans kind)
    refine ⟨id, reached, (tidy.named _ id).mpr ⟨body, ?_⟩, rfl⟩
    rw [stored, label, ← isVariable]
  · rintro ⟨id, reached, named, rfl⟩
    obtain ⟨body, isVariable⟩ := (tidy.named name id).mp named
    obtain ⟨expr, placed, stored, found, label, kind, _⟩ := depicts.node id reached
    obtain rfl := Option.some.inj (isVariable.symm.trans stored)
    exact ⟨placed, found, kind, label⟩

theorem Depicts.namesOnce (depicts : layout.Depicts program place)
    (tidy : program.arena.Tidy program.bindings [program.root]) : layout.NamesOnce program := by
  have distinct : ∀ first second name, layout.ShowsName name first →
      layout.ShowsName name second → first = second := by
    intro first second name showsFirst showsSecond
    obtain ⟨id, _, named, rfl⟩ := (depicts.showsName_iff tidy).mp showsFirst
    obtain ⟨other, _, namedOther, rfl⟩ := (depicts.showsName_iff tidy).mp showsSecond
    rw [Option.some.inj (named.symm.trans namedOther)]
  refine ⟨fun name id reached named => ?_, distinct⟩
  have here := (depicts.showsName_iff tidy).mpr ⟨id, reached, named, rfl⟩
  exact ⟨place id, here, fun index shows => distinct index (place id) name shows here⟩

/-! ### Sizes -/

/-- Where a list has every expression that can be reached, and has it once, the places of its
members are the places of the layout. -/
theorem Depicts.places_perm (depicts : layout.Depicts program place) {shown : List ExprId}
    (distinct : shown.Nodup) (all : ∀ id, id ∈ shown ↔ id ∈ program.reachable) :
    (shown.map place).Perm (List.range layout.size) := by
  have distinctPlaces : (shown.map place).Nodup :=
    distinct.map_on fun first inFirst second inSecond same =>
      depicts.bijection.injOn ((all first).mp inFirst) ((all second).mp inSecond) same
  refine (List.perm_ext_iff_of_nodup distinctPlaces List.nodup_range).mpr fun index => ?_
  rw [List.mem_map, List.mem_range]
  constructor
  · rintro ⟨id, member, rfl⟩
    exact depicts.bijection.mapsTo ((all id).mp member)
  · intro bound
    obtain ⟨id, reached, same⟩ := depicts.bijection.surjOn bound
    exact ⟨id, (all id).mpr reached, same⟩

theorem length_edges (layout : Layout α) :
    layout.edges.length = (layout.nodes.toList.flatMap PlacedNode.children).length := by
  rw [edges, List.length_flatMap, List.length_flatMap]
  congr 2
  funext node
  rw [List.length_map, List.length_zipIdx]

/-- The edges are the uses in the expressions that can be reached. -/
theorem Depicts.length_edges (depicts : layout.Depicts program place) {shown : List ExprId}
    (distinct : shown.Nodup) (all : ∀ id, id ∈ shown ↔ id ∈ program.reachable) :
    layout.edges.length =
      (shown.flatMap (list (program.arena.exprs.map Expr.children))).length := by
  have lists : (List.range layout.size).flatMap (list (layout.nodes.map PlacedNode.children)) =
      layout.nodes.toList.flatMap PlacedNode.children := flatMap_list_range _ _
  have places := (depicts.places_perm distinct all).flatMap_right
    (list (layout.nodes.map PlacedNode.children))
  rw [Layout.length_edges, ← lists, ← places.length_eq, List.length_flatMap, List.length_flatMap,
    List.map_map]
  refine congrArg List.sum (List.map_congr_left fun id member => ?_)
  obtain ⟨expr, placed, stored, found, _, _, children⟩ := depicts.node id ((all id).mp member)
  rw [Arena.get?] at stored
  rw [Function.comp_apply, list, list, Array.getElem?_map, found, Array.getElem?_map, stored,
    Option.map_some, Option.map_some, Option.getD_some, Option.getD_some, children, List.length_map]

/-- A layout has no more nodes than there are expressions, and no more edges than there are uses. -/
theorem Depicts.size_le (depicts : layout.Depicts program place) {shown : List ExprId}
    (distinct : shown.Nodup) (all : ∀ id, id ∈ shown ↔ id ∈ program.reachable) :
    layout.size ≤ program.arena.size ∧ layout.edges.length ≤ program.arena.uses.length := by
  have stored : shown ⊆ List.range program.arena.size := by
    intro id member
    obtain ⟨expr, _, found, _⟩ := depicts.node id ((all id).mp member)
    exact List.mem_range.mpr (Arena.lt_size found)
  obtain ⟨ordered, same, sublist⟩ := List.subperm_of_subset distinct stored
  constructor
  · have places := (depicts.places_perm distinct all).length_eq
    have length := sublist.length_le
    rw [List.length_map, List.length_range] at places
    rwa [same.length_eq, List.length_range, places] at length
  · have uses : (List.range program.arena.size).flatMap
        (list (program.arena.exprs.map Expr.children)) = program.arena.uses :=
      flatMap_list_range _ _
    rw [depicts.length_edges distinct all, ← (same.flatMap_right _).length_eq, ← uses]
    exact (sublist.flatMap _).length_le

end Layout

/-! ### Places of expressions -/

namespace Arrangement

variable {arrangement : Arrangement α} {tree : RoseTree Nat} {layout : Layout α}
variable {program : Program} {shown : List ExprId} {id : ExprId} {node : Nat}

/-- The place of an expression: that of its node in the order of the tree. -/
def placeOf (tree : RoseTree Nat) (shown : List ExprId) (id : ExprId) : Nat :=
  tree.values.idxOf (shown.idxOf id)

variable [Coordinate α]

theorem Laid.mem_tree (laid : arrangement.Laid tree)
    (depicts : arrangement.diagram.Depicts program shown) :
    node ∈ tree.values ↔ node < shown.length := by
  rw [laid.mem_values_iff fun _ => depicts.reaches, depicts.size]

theorem idxOf_mem_tree (laid : arrangement.Laid tree)
    (depicts : arrangement.diagram.Depicts program shown) (reached : id ∈ program.reachable) :
    id ∈ shown ∧ shown.idxOf id ∈ tree.values := by
  have member := depicts.mem_iff.mpr reached
  exact ⟨member, (laid.mem_tree depicts).mpr (List.idxOf_lt_length_iff.mpr member)⟩

theorem placeOf_bijOn (laid : arrangement.Laid tree) (displays : arrangement.Displays tree layout)
    (depicts : arrangement.diagram.Depicts program shown) (distinct : shown.Nodup) :
    Set.BijOn (placeOf tree shown) program.reachable {index | index < layout.size} := by
  refine ⟨fun id reached => ?_, fun first reachedFirst second reachedSecond same => ?_,
    fun index bound => ?_⟩
  · show placeOf tree shown id < layout.size
    rw [displays.size]
    exact List.idxOf_lt_length_iff.mpr (idxOf_mem_tree laid depicts reached).2
  · obtain ⟨inShown, inTree⟩ := idxOf_mem_tree laid depicts reachedFirst
    exact (List.idxOf_inj inShown).mp ((List.idxOf_inj inTree).mp same)
  · have inTree : index < tree.values.length := displays.size ▸ bound
    have inShown := (laid.mem_tree depicts).mp (List.getElem_mem inTree)
    refine ⟨shown[tree.values[index]], depicts.mem_iff.mp (List.getElem_mem inShown), ?_⟩
    rw [placeOf, distinct.idxOf_getElem, laid.spanning.distinct.idxOf_getElem]

/-- The layout of the diagram of a program depicts the program, if no expression was drawn twice. -/
theorem Displays.depicts (displays : arrangement.Displays tree layout)
    (laid : arrangement.Laid tree) (depicts : arrangement.diagram.Depicts program shown)
    (distinct : shown.Nodup) : layout.Depicts program (placeOf tree shown) := by
  refine ⟨placeOf_bijOn laid displays depicts distinct, ⟨displays.root, ?_⟩, fun id reached => ?_⟩
  · rw [placeOf, idxOf_of_getElem? distinct depicts.root]
    exact laid.idxOf_root
  · obtain ⟨inShown, inTree⟩ := idxOf_mem_tree laid depicts reached
    obtain ⟨expr, nodes, stored, label, listed, below⟩ :=
      depicts.node _ id (List.getElem?_idxOf inShown)
    obtain ⟨placed, found, _, shows⟩ := displays.node _ _ (List.getElem?_idxOf inTree)
    obtain ⟨others, listedOthers, _, children⟩ := shows.children
    rw [laid.children] at listedOthers
    obtain rfl := Option.some.inj (listed.symm.trans listedOthers)
    have same := Node.mk.inj (Option.some.inj (shows.shown.symm.trans label))
    refine ⟨expr, placed, stored, found, same.1, same.2, ?_⟩
    rw [children, below.eq_map distinct, List.map_map]
    rfl

end Arrangement

/-- The layout of a parsed program shows exactly the program, with sharing: it has one node for each
expression that can be reached, each defined name that is used has one node, and there are no more
nodes, and no more edges, than tokens that were read. -/
theorem layout_depicts (α : Type) [Coordinate α] {tokens : List Token} {program : Program}
    (parsed : Program.parse tokens = .ok program) :
    ∃ (layout : Layout α) (place : ExprId → Nat) (consumed : List Token),
      Layout.ofProgram program = .ok layout ∧ layout.Depicts program place ∧
      layout.NamesOnce program ∧ consumed? tokens = some consumed ∧
      layout.size ≤ consumed.length ∧ layout.edges.length ≤ consumed.length := by
  have tidy := tidy_of_parse parsed
  obtain ⟨consumed, read, sizeLe, usesLt⟩ := size_le_of_parse parsed
  obtain ⟨diagram, drawn⟩ := Diagram.ofProgram_ok
    (tidy.ordered.inRange (tidy.bound program.root List.mem_cons_self)) tidy.ordered.acyclic
  obtain ⟨shown, depicts⟩ := Diagram.ofProgram_depicts drawn
  have distinct := depicts.nodup tidy
  have all : ∀ id, id ∈ shown ↔ id ∈ program.reachable := fun id => depicts.mem_iff
  obtain ⟨arrangement, tree, layout, _, rfl, computed, laid, displays⟩ :=
    Layout.ofProgram_displays α drawn
  have shows := displays.depicts laid depicts distinct
  obtain ⟨size, edges⟩ := shows.size_le distinct all
  exact ⟨layout, _, consumed, computed, shows, shows.namesOnce tidy, read, size.trans sizeLe,
    edges.trans usesLt.le⟩

theorem layout_depicts_twoRows :
    Program.parse (tokenize twoRows) = .ok twoRowsProgram ∧
      ∃ (layout : Layout Float) (place : ExprId → Nat) (consumed : List Token),
        Layout.ofProgram twoRowsProgram = .ok layout ∧ layout.Depicts twoRowsProgram place ∧
        layout.NamesOnce twoRowsProgram ∧ consumed? (tokenize twoRows) = some consumed ∧
        layout.size ≤ consumed.length ∧ layout.edges.length ≤ consumed.length :=
  ⟨twoRows_parsed, layout_depicts Float twoRows_parsed⟩

end ExprDiagram
