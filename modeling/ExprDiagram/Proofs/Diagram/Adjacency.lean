/-
This file relates the edges of a graph to the lists of children that are made from them. The lists
hold the targets of the edges, so that a step along the lists is a step along an edge; when the edges
lead down in some rank, so do the steps.
-/

import ExprDiagram.Proofs.Diagram.Leaving
import Mathlib.Data.List.Nodup

namespace ExprDiagram

namespace Graph

variable {graph : Graph}

/-! ### Lists of children -/

theorem foldl_outgoing (edges : List Edge) (lists : Array (List Edge)) (node : Nat) :
    (edges.foldl (fun lists edge => lists.modify edge.source (edge :: ·)) lists)[node]? =
      lists[node]?.map ((edges.filter fun edge => edge.source = node).reverse ++ ·) := by
  induction edges generalizing lists with
  | nil => exact Option.map_id'.symm
  | cons edge rest inductionHypothesis =>
    rw [List.foldl_cons, inductionHypothesis, Array.getElem?_modify]
    by_cases same : edge.source = node
    · rw [if_pos same, List.filter_cons, if_pos (decide_eq_true same), Option.map_map,
        List.reverse_cons]
      congr 1
      funext others
      show _ ++ edge :: others = _ ++ [edge] ++ others
      rw [List.append_assoc, List.singleton_append]
    · rw [if_neg same, List.filter_cons, if_neg fun equal => same (of_decide_eq_true equal)]

theorem size_outgoing (graph : Graph) : graph.outgoing.size = graph.size := by
  rw [outgoing, ← Array.foldl_toList,
    size_foldl_modify Edge.source (fun edge others => edge :: others), Array.size_replicate]

theorem size_childLists (graph : Graph) : graph.childLists.size = graph.size := by
  rw [childLists, Array.size_map, size_outgoing]

/-- The edges that leave a node, the latest first. -/
theorem getElem?_outgoing {node : Nat} (bound : node < graph.size) :
    graph.outgoing[node]? =
      some (graph.edges.toList.filter fun edge => edge.source = node).reverse := by
  rw [outgoing, ← Array.foldl_toList, foldl_outgoing, Array.getElem?_replicate, if_pos bound,
    Option.map_some, List.append_nil]

/-- A step along the lists of children is a step along an edge. -/
theorem step_childLists_iff {node child : Nat} :
    Step graph.childLists node child ↔
      node < graph.size ∧ ∃ edge ∈ graph.edges, edge.source = node ∧ edge.target = child := by
  constructor
  · rintro ⟨nodes, below, member⟩
    have bound : node < graph.size :=
      graph.size_childLists ▸ (Array.getElem?_eq_some_iff.mp below).1
    rw [childLists, Array.getElem?_map, getElem?_outgoing bound, Option.map_some] at below
    obtain rfl := Option.some.inj below
    obtain ⟨edge, sorted, rfl⟩ := List.mem_map.mp member
    rw [List.mem_mergeSort, List.mem_reverse, List.mem_filter, Array.mem_toList_iff] at sorted
    exact ⟨bound, edge, sorted.1, of_decide_eq_true sorted.2, rfl⟩
  · rintro ⟨bound, edge, member, source, target⟩
    refine ⟨_, by rw [childLists, Array.getElem?_map, getElem?_outgoing bound, Option.map_some], ?_⟩
    refine List.mem_map.mpr ⟨edge, ?_, target⟩
    rw [List.mem_mergeSort, List.mem_reverse, List.mem_filter, Array.mem_toList_iff]
    exact ⟨member, decide_eq_true source⟩

/-- The edges from a node to its children, whose positions begin at the given one. -/
def fan (node : Nat) : Nat → List Nat → List Edge
  | _, [] => []
  | position, child :: rest => ⟨node, child, position⟩ :: fan node (position + 1) rest

theorem map_target_fan (node position : Nat) (children : List Nat) :
    (fan node position children).map Edge.target = children := by
  induction children generalizing position with
  | nil => rfl
  | cons child rest inductionHypothesis => rw [fan, List.map_cons, inductionHypothesis]

theorem source_of_mem_fan {node position : Nat} {children : List Nat} :
    ∀ edge ∈ fan node position children, edge.source = node := by
  induction children generalizing position with
  | nil => exact fun _ member => (by cases member)
  | cons child rest inductionHypothesis =>
    exact List.forall_mem_cons.mpr ⟨rfl, inductionHypothesis⟩

theorem le_position_of_mem_fan {node position : Nat} {children : List Nat} :
    ∀ edge ∈ fan node position children, position ≤ edge.position := by
  induction children generalizing position with
  | nil => exact fun _ member => (by cases member)
  | cons child rest inductionHypothesis =>
    exact List.forall_mem_cons.mpr
      ⟨Nat.le_refl _, fun edge member => Nat.le_of_succ_le (inductionHypothesis edge member)⟩

theorem pairwise_fan (node position : Nat) (children : List Nat) :
    (fan node position children).Pairwise fun first second => first.position < second.position := by
  induction children generalizing position with
  | nil => exact .nil
  | cons child rest inductionHypothesis =>
    exact .cons (fun edge member => le_position_of_mem_fan edge member) (inductionHypothesis _)

/-- Sorting puts edges back into the order of their positions, which no two of them share. -/
theorem mergeSort_fan (node position : Nat) (children : List Nat) :
    (fan node position children).reverse.mergeSort
      (fun first second => first.position ≤ second.position) = fan node position children := by
  have ordered := pairwise_fan node position children
  have distinct : ((fan node position children).map Edge.position).Nodup :=
    List.pairwise_map.mpr (ordered.imp Nat.ne_of_lt)
  have sorted : ((fan node position children).reverse.mergeSort
      (fun first second => first.position ≤ second.position)).Pairwise
        fun first second => first.position ≤ second.position := by
    refine List.Pairwise.imp of_decide_eq_true (List.pairwise_mergeSort ?_ ?_ _)
    · intro first second third lower upper
      exact decide_eq_true (Nat.le_trans (of_decide_eq_true lower) (of_decide_eq_true upper))
    · intro first second
      rw [Bool.or_eq_true, decide_eq_true_eq, decide_eq_true_eq]
      exact Nat.le_total first.position second.position
  have same := (List.mergeSort_perm (fan node position children).reverse
    fun first second : Edge => first.position ≤ second.position).trans (List.reverse_perm _)
  refine List.Perm.eq_of_pairwise (fun first second inFirst inSecond lower upper => ?_) sorted
    (ordered.imp Nat.le_of_lt) same
  exact List.inj_on_of_nodup_map distinct (same.mem_iff.mp inFirst) inSecond
    (Nat.le_antisymm lower upper)

/-- When the edges of a node lead to some children in order, those are its list of children. -/
theorem getElem?_childLists_of_fan {node : Nat} {children : List Nat} (bound : node < graph.size)
    (edges : (graph.edges.toList.filter fun edge => edge.source = node) = fan node 0 children) :
    graph.childLists[node]? = some children := by
  rw [childLists, Array.getElem?_map, getElem?_outgoing bound, edges, Option.map_some,
    mergeSort_fan, map_target_fan]

/-! ### Edges that lead down -/

/-- The edges join two nodes each, and lead down in a rank. -/
def LeadsDown (graph : Graph) (rank : Nat → Nat) : Prop :=
  ∀ edge ∈ graph.edges, edge.source < graph.size ∧ edge.target < graph.size ∧
    rank edge.target < rank edge.source

theorem LeadsDown.descending {rank : Nat → Nat} (down : graph.LeadsDown rank) :
    Descending graph.childLists rank := by
  refine ⟨fun node child step => ?_, fun node child step => ?_⟩
  · obtain ⟨_, edge, member, _, rfl⟩ := step_childLists_iff.mp step
    exact graph.size_childLists.symm ▸ (down edge member).2.1
  · obtain ⟨_, edge, member, rfl, rfl⟩ := step_childLists_iff.mp step
    exact (down edge member).2.2

end Graph

end ExprDiagram
