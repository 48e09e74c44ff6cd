/-
This file walks over trees that are given as lists: for each node, the nodes below it in order. The
walk keeps a stack of nodes to visit; a visited node is replaced by the nodes below it. From which
end they are taken decides whether the visits come before or after those of the nodes below.

Lists that were put together by hand may hang a node below several others, which is then visited as
often, or run in a circle, which has no end. The number of visits is therefore limited, to more than
a walk without circles can have.
-/

namespace ExprDiagram

/-- A bound on the visits of a walk that meets no circle. Such a walk goes down at most as many
steps as there are nodes, and at each step has no more choices than the longest list has entries. -/
def visitBound (below : Array (List Nat)) : Nat :=
  let longest := below.foldl (fun longest nodes => max longest nodes.length) 0
  below.size + Nat.pow (longest + 1) below.size

/-- Visits the nodes of a stack and those below them, and lists the visits, the latest first, in
front of those given. There is no result when a number lies outside the lists or the visits exceed
the limit. -/
def visit? (below : Array (List Nat)) (arrange : List Nat → List Nat) (limit : Nat)
    (stack : List Nat) (visits : List Nat) : Option (List Nat) :=
  match stack, limit with
  | [], _ => some visits
  | _ :: _, 0 => none
  | node :: rest, limit + 1 =>
    match below[node]? with
    | none => none
    | some nodes => visit? below arrange limit (arrange nodes ++ rest) (node :: visits)

/-- The nodes of the tree under a root, every node before those below it, from left to right. -/
def preOrder? (below : Array (List Nat)) (root : Nat) : Option (List Nat) :=
  (visit? below id (visitBound below) [root] []).map List.reverse

/-- The nodes of the tree under a root, every node after those below it, from left to right. -/
def postOrder? (below : Array (List Nat)) (root : Nat) : Option (List Nat) :=
  visit? below List.reverse (visitBound below) [root] []

end ExprDiagram
