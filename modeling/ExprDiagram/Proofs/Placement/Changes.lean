/-
This file says what a change of the frames leaves as it was. The frames of a tree, and the links
between its nodes, depend only on what is kept for the numbers of the tree. Moving a tree moves the
frames of all its nodes by the same distance. A thread adds one link, and joins the outermost nodes
of the shorter trees and those that the taller trees have in the rows below.
-/

import ExprDiagram.Proofs.Placement.Plain
import ExprDiagram.Proofs.Placement.Walk
import ExprDiagram.Proofs.Trees.Listed

namespace ExprDiagram

open RoseTree

namespace Frames

variable {below : Array (List Nat)} {frames first second third : Frames Rat} {side : Side}

/-! ### Agreement -/

/-- Frames that keep the same for all numbers of a region. -/
structure Agree (region : Nat → Prop) (first second : Frames Rat) : Prop where
  offset : ∀ id, region id → first.offset[id]? = second.offset[id]?
  shift : ∀ id, region id → first.shift[id]? = second.shift[id]?
  thread : ∀ id, region id → first.thread[id]? = second.thread[id]?

variable {region smaller : Nat → Prop}

theorem Agree.refl (frames : Frames Rat) : Agree region frames frames :=
  ⟨fun _ _ => rfl, fun _ _ => rfl, fun _ _ => rfl⟩

theorem Agree.trans (before : Agree region first second) (after : Agree region second third) :
    Agree region first third :=
  ⟨fun id inside => (before.offset id inside).trans (after.offset id inside),
    fun id inside => (before.shift id inside).trans (after.shift id inside),
    fun id inside => (before.thread id inside).trans (after.thread id inside)⟩

theorem Agree.mono (agree : Agree region first second)
    (inside : ∀ id, smaller id → region id) : Agree smaller first second :=
  ⟨fun id member => agree.offset id (inside id member),
    fun id member => agree.shift id (inside id member),
    fun id member => agree.thread id (inside id member)⟩

theorem Agree.offsetOf (agree : Agree region first second) {id : Nat} (inside : region id) :
    first.offsetOf id = second.offsetOf id := by
  rw [Frames.offsetOf, Frames.offsetOf, agree.offset id inside]

theorem Agree.shiftOf (agree : Agree region first second) {id : Nat} (inside : region id) :
    first.shiftOf id = second.shiftOf id := by
  rw [Frames.shiftOf, Frames.shiftOf, agree.shift id inside]

theorem framed_node (frames : Frames Rat) (origin : Rat) (id : Nat)
    (children : List (RoseTree Nat)) :
    framed frames origin (.node id children) =
      .node (id, origin + frames.shiftOf id)
        (children.map (framed frames (origin + frames.shiftOf id))) := by
  rw [framed, framedAll_eq_map]

/-- The frames of a tree depend only on the shifts of its numbers. -/
theorem framed_congr {tree : RoseTree Nat}
    (same : ∀ id ∈ tree.values, first.shiftOf id = second.shiftOf id) (origin : Rat) :
    framed first origin tree = framed second origin tree := by
  induction tree using RoseTree.induct generalizing origin with
  | node id children inductionHypothesis =>
    rw [framed_node, framed_node, same id List.mem_cons_self]
    congr 1
    refine List.map_congr_left fun child member => inductionHypothesis child member ?_ _
    exact fun other inChild =>
      same other (List.mem_cons_of_mem _ (values_subset_valuesAll member inChild))

theorem ids_framed (frames : Frames Rat) (origin : Rat) (tree : RoseTree Nat) :
    (framed frames origin tree).map Prod.fst = tree := by
  induction tree using RoseTree.induct generalizing origin with
  | node id children inductionHypothesis =>
    rw [framed_node, map_node, List.map_map]
    exact congrArg (RoseTree.node id)
      (map_eq_self fun child member => inductionHypothesis child member _)

theorem ids_framedAll (frames : Frames Rat) (origin : Rat) (trees : List (RoseTree Nat)) :
    (trees.map (framed frames origin)).map (map Prod.fst) = trees := by
  rw [List.map_map]
  exact map_eq_self fun tree _ => ids_framed frames origin tree

theorem mem_of_mem_framedAll {origin : Rat} {trees : List (RoseTree Nat)} {node : Nat × Rat}
    (member : node ∈ valuesAll (trees.map (framed frames origin))) : node.1 ∈ valuesAll trees := by
  rw [← ids_framedAll frames origin trees, valuesAll_map]
  exact List.mem_map_of_mem member

theorem heightAll_framedAll (frames : Frames Rat) (origin : Rat) (trees : List (RoseTree Nat)) :
    heightAll (trees.map (framed frames origin)) = heightAll trees := by
  rw [← heightAll_map Prod.fst, ids_framedAll]

theorem framed_add (frames : Frames Rat) (origin distance : Rat) (tree : RoseTree Nat) :
    framed frames (origin + distance) tree =
      (framed frames origin tree).map fun node => (node.1, node.2 + distance) := by
  induction tree using RoseTree.induct generalizing origin with
  | node id children inductionHypothesis =>
    have order : origin + distance + frames.shiftOf id = origin + frames.shiftOf id + distance :=
      add_right_comm _ _ _
    rw [framed_node, framed_node, map_node, List.map_map, order]
    congr 1
    exact List.map_congr_left fun child member => inductionHypothesis child member _

/-! ### Drawings -/

/-- The drawing that the frames hold of a tree. -/
def drawn (frames : Frames Rat) (origin : Rat) (tree : RoseTree Nat) : Drawing :=
  (framed frames origin tree).map fun node => (node.1, frames.standing node)

theorem drawn_node (frames : Frames Rat) (origin : Rat) (id : Nat)
    (children : List (RoseTree Nat)) :
    frames.drawn origin (.node id children) =
      .node (id, frames.offsetOf id + (origin + frames.shiftOf id))
        (children.map (frames.drawn (origin + frames.shiftOf id))) := by
  rw [drawn, framed_node, map_node, List.map_map]
  rfl

theorem drawn_add (frames : Frames Rat) (origin distance : Rat) (tree : RoseTree Nat) :
    frames.drawn (origin + distance) tree = translate distance (frames.drawn origin tree) := by
  rw [drawn, framed_add, drawn, translate, map_map, map_map]
  congr 1
  funext node
  show (node.1, frames.offsetOf node.1 + (node.2 + distance)) =
    (node.1, frames.offsetOf node.1 + node.2 + distance)
  rw [add_assoc]

/-- The drawing of a tree depends only on the offsets and shifts of its numbers. -/
theorem drawn_eq {tree : RoseTree Nat}
    (offset : ∀ id ∈ tree.values, first.offsetOf id = second.offsetOf id)
    (shift : ∀ id ∈ tree.values, first.shiftOf id = second.shiftOf id) (origin : Rat) :
    first.drawn origin tree = second.drawn origin tree := by
  induction tree using RoseTree.induct generalizing origin with
  | node id children inductionHypothesis =>
    rw [drawn_node, drawn_node, offset id List.mem_cons_self, shift id List.mem_cons_self]
    congr 1
    refine List.map_congr_left fun child member => ?_
    have inside : ∀ other ∈ child.values, other ∈ (RoseTree.node id children).values :=
      fun other inChild => List.mem_cons_of_mem _ (values_subset_valuesAll member inChild)
    exact inductionHypothesis child member (fun other inChild => offset other (inside other inChild))
      (fun other inChild => shift other (inside other inChild)) _

theorem drawn_congr {tree : RoseTree Nat} (agree : Agree (· ∈ tree.values) first second)
    (origin : Rat) : first.drawn origin tree = second.drawn origin tree :=
  drawn_eq (fun _ => agree.offsetOf) (fun _ => agree.shiftOf) origin

/-! ### Links -/

theorem next?_congr {id : Nat} (thread : first.thread[id]? = second.thread[id]?)
    (shift : ∀ nodes, below[id]? = some nodes → ∀ child ∈ nodes,
      first.shift[child]? = second.shift[child]?) :
    first.next? below side id = second.next? below side id := by
  rw [next?, next?, thread]
  cases found : below[id]? with
  | none => rfl
  | some nodes =>
    cases outermost : side.outermost nodes with
    | none => simp only [bind, Option.bind, outermost]
    | some child =>
      have member : child ∈ nodes := Side.edge_mem (side.outermost_eq_edge nodes ▸ outermost)
      simp only [bind, Option.bind, outermost, shift nodes found child member]

theorem Linked.congr {trees : List (RoseTree (Nat × Rat))}
    (linked : first.Linked below side trees)
    (same : ∀ node ∈ valuesAll trees,
      first.next? below side node.1 = second.next? below side node.1) :
    second.Linked below side trees := by
  intro depth node edge
  rw [← same node (rowAll_subset_valuesAll depth trees (Side.edge_mem edge))]
  exact linked depth node edge

/-- The links of trees depend only on what is kept for their numbers. -/
theorem Agree.next? {trees : List (RoseTree Nat)} (agree : Agree (· ∈ valuesAll trees) first second)
    (listed : ∀ tree ∈ trees, tree.ListedIn below) {id : Nat} (member : id ∈ valuesAll trees) :
    first.next? below side id = second.next? below side id := by
  refine next?_congr (agree.thread id member) fun nodes found child inNodes => ?_
  rw [valuesAll_eq_flatMap] at member
  obtain ⟨tree, inTrees, inTree⟩ := List.mem_flatMap.mp member
  obtain ⟨others, foundOthers, inside⟩ := (listed tree inTrees).below_subset id inTree
  obtain rfl : nodes = others := Option.some.inj (found.symm.trans foundOthers)
  refine agree.shift child (values_subset_valuesAll inTrees ?_)
  exact tree.valuesAll_children_subset (inside inNodes)

theorem Agree.linked {trees : List (RoseTree Nat)} {origin : Rat}
    (agree : Agree (· ∈ valuesAll trees) first second)
    (listed : ∀ tree ∈ trees, tree.ListedIn below)
    (linked : first.Linked below side (trees.map (framed first origin))) :
    second.Linked below side (trees.map (framed second origin)) := by
  have same : trees.map (framed first origin) = trees.map (framed second origin) :=
    List.map_congr_left fun tree member => framed_congr (fun id inTree =>
      agree.shiftOf (values_subset_valuesAll member inTree)) origin
  rw [← same]
  exact linked.congr fun node member => agree.next? listed (mem_of_mem_framedAll member)

end Frames

end ExprDiagram
