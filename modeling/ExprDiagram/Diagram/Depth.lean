/-
This file finds whether a graph has a circle, and how deep each node stands. A depth-first walk
leaves a node after everything that can be reached from it, so the nodes in the reverse of the order
in which they were left have every edge pointing forward, unless there is a circle. Along such an
order the longest way from the root to a node is found by raising the children of each node in turn.
-/

import ExprDiagram.Diagram.Basic

namespace ExprDiagram

/-! ### Depth-first order -/

/-- How far a walk has come with a node. -/
inductive Mark where
  /-- The node has not been met. -/
  | unseen
  /-- The walk is among the nodes below it. -/
  | entered
  /-- Everything below it has been left. -/
  | left
  deriving DecidableEq

theorem count_set_lt {marks : Array Mark} {node : Nat} {mark : Mark} (bound : node < marks.size)
    (unseen : marks[node] = .unseen) (seen : mark ≠ .unseen) :
    (marks.set node mark).count .unseen < marks.count .unseen := by
  have positive : 0 < marks.count .unseen := by
    rw [Array.count_pos_iff]
    exact unseen ▸ Array.getElem_mem bound
  rw [Array.count_set]
  have different : (mark == Mark.unseen) = false := by simpa using seen
  simp only [unseen, different, beq_self_eq_true, if_true, Bool.false_eq_true, if_false]
  omega

/-- Walks over the nodes of a stack and those below them, and lists the nodes before it that were
left, the latest first. A node stays on the stack while the walk is below it. -/
def leave? (children : Array (List Nat)) (stack : List Nat) (marks : Array Mark)
    (order : List Nat) : Option (List Nat) :=
  match stack with
  | [] => some order
  | node :: rest =>
    if bound : node < marks.size then
      match _state : marks[node] with
      | .unseen =>
        match children[node]? with
        | none => none
        | some below =>
          let entered := marks.set node .entered
          leave? children (below.filter (entered[·]?.getD .unseen == .unseen) ++ node :: rest)
            entered order
      | .entered => leave? children rest (marks.set node .left) (node :: order)
      | .left => leave? children rest marks order
    else none
termination_by (marks.count .unseen, stack.length)
decreasing_by
  · exact Prod.Lex.left _ _ (count_set_lt bound _state (by decide))
  · have same : (marks.set node .left).count .unseen = marks.count .unseen := by
      rw [Array.count_set]
      simp [_state]
    rw [same]
    exact Prod.Lex.right _ (Nat.lt_succ_self _)
  · exact Prod.Lex.right _ (Nat.lt_succ_self _)

/-- The nodes that can be reached from the given ones, the one left last first. -/
def topological? (children : Array (List Nat)) (starts : List Nat) : Option (List Nat) :=
  leave? children starts (Array.replicate children.size .unseen) []

/-! ### Circles -/

/-- The place of each node in a list; nodes outside the list have place zero. -/
def places (size : Nat) (order : List Nat) : Array Nat :=
  order.zipIdx.foldl (fun places (node, place) => places.setIfInBounds node place)
    (Array.replicate size 0)

/-- Whether the graph, in all its parts, has no circle: along the order of a walk over all nodes
every edge points forward. -/
def Graph.isAcyclic (graph : Graph) : Bool :=
  match topological? graph.childLists (List.range graph.size) with
  | none => false
  | some order =>
    let place := places graph.size order
    graph.edges.all fun edge => place[edge.source]?.getD 0 < place[edge.target]?.getD 0

/-! ### Depths -/

/-- Puts the children of a node at least one step below it. -/
def lowerChildren (children : Array (List Nat)) (depth : Array Nat) (node : Nat) : Array Nat :=
  let below := depth[node]?.getD 0 + 1
  (children[node]?.getD []).foldl (fun depth child => depth.modify child (max below)) depth

/-- The number of edges on the longest way from the root to each node, and zero for the nodes that
the root does not reach. There is none when the root does not exist. -/
def depths? (root : Nat) (children : Array (List Nat)) : Option (Array Nat) := do
  let order ← topological? children [root]
  return order.foldl (lowerChildren children) (Array.replicate children.size 0)

end ExprDiagram
