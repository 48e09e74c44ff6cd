/-
This file says in which order the nodes of a tree are placed. The walk goes through the tree from
the right, each node before those below it, and its visits are listed from the last to the first.
Read that way they follow the recursion over the tree: the visits below a node, subtree by subtree
from left to right, and then the node. So each node comes once, after all nodes below it, and the
root comes last.
-/

import ExprDiagram.Proofs.Trees.Listed
import ExprDiagram.Proofs.Trees.Subtrees

namespace ExprDiagram

namespace RoseTree

variable {α : Type} {tree small : RoseTree α} {depth : Nat}

/-! ### The values from below -/

mutual
theorem postorder_perm : ∀ tree : RoseTree α, tree.postorder.Perm tree.values
  | node value children => by
    rw [postorder, values]
    exact (List.perm_append_singleton value _).trans ((postorderAll_perm children).cons value)

theorem postorderAll_perm : ∀ trees : List (RoseTree α), (postorderAll trees).Perm (valuesAll trees)
  | [] => .nil
  | tree :: rest => by
    rw [postorderAll, valuesAll]
    exact tree.postorder_perm.append (postorderAll_perm rest)
end

theorem postorderAll_eq_flatMap (trees : List (RoseTree α)) :
    postorderAll trees = trees.flatMap postorder := by
  induction trees with
  | nil => rfl
  | cons tree rest inductionHypothesis =>
    rw [postorderAll, inductionHypothesis, List.flatMap_cons]

theorem getLast?_postorder (tree : RoseTree α) : tree.postorder.getLast? = some tree.value := by
  obtain ⟨value, children⟩ := tree
  rw [postorder, List.getLast?_concat]
  rfl

/-- The values of a subtree stand next to each other, from below as well. -/
theorem Subtree.postorder_infix (subtree : Subtree depth small tree) :
    small.postorder <:+: tree.postorder := by
  induction subtree with
  | top => exact List.infix_refl _
  | @inside depth small child value children member _ inductionHypothesis =>
    refine inductionHypothesis.trans (List.IsInfix.trans ?_ (List.prefix_append _ [value]).isInfix)
    rw [postorderAll_eq_flatMap]
    exact infix_flatMap_of_mem postorder member

/-- In a list without repetitions, what stands before a value has a lower place. -/
theorem idxOf_lt_of_append [DecidableEq α] {before after : List α} {value other : α}
    (distinct : (before ++ value :: after).Nodup) (member : other ∈ before) :
    (before ++ value :: after).idxOf other < (before ++ value :: after).idxOf value := by
  have outside : value ∉ before :=
    fun inBefore => (List.nodup_append.mp distinct).2.2 value inBefore value List.mem_cons_self rfl
  rw [List.idxOf_append_of_mem member, List.idxOf_append_of_notMem outside, List.idxOf_cons_self]
  exact List.idxOf_lt_length_of_mem member

/-- From below, a value comes after all values below it. -/
theorem Subtree.idxOf_postorder_lt [DecidableEq α] (subtree : Subtree depth small tree)
    (distinct : tree.values.Nodup) {value : α} (member : value ∈ valuesAll small.children) :
    tree.postorder.idxOf value < tree.postorder.idxOf small.value := by
  obtain ⟨top, children⟩ := small
  obtain ⟨before, after, split⟩ := subtree.postorder_infix
  have order : tree.postorder = before ++ postorderAll children ++ top :: after := by
    rw [← split, postorder, List.append_assoc, List.append_assoc, List.append_assoc,
      List.singleton_append]
  have distinctOrder := tree.postorder_perm.nodup_iff.mpr distinct
  rw [order] at distinctOrder ⊢
  exact idxOf_lt_of_append distinctOrder
    (List.mem_append_right _ ((postorderAll_perm children).mem_iff.mpr member))

end RoseTree

open RoseTree

/-! ### The order of the walk -/

/-- An order of visits is one from below if it holds each node of the tree once and no other nodes,
each node after all those below it, and the root at the end. -/
structure FromBelow (tree : RoseTree Nat) (order : List Nat) : Prop where
  once : ∀ node, order.count node = if node ∈ tree.values then 1 else 0
  after : ∀ depth small, Subtree depth small tree → ∀ node ∈ valuesAll small.children,
    order.idxOf node < order.idxOf small.value
  last : order.getLast? = some tree.value

theorem fromBelow_postorder {tree : RoseTree Nat} (distinct : tree.values.Nodup) :
    FromBelow tree tree.postorder := by
  refine ⟨fun node => ?_, fun depth small subtree node => subtree.idxOf_postorder_lt distinct,
    tree.getLast?_postorder⟩
  rw [tree.postorder_perm.count_eq, distinct.count]

/-- The walks from the tops of some trees list what the recursion over each of them lists. -/
theorem mapM_postOrder? {below : Array (List Nat)} {trees : List (RoseTree Nat)}
    (grove : Grove below trees) :
    (trees.map value).mapM (postOrder? below) = some (trees.map postorder) := by
  induction trees with
  | nil => rfl
  | cons tree rest inductionHypothesis =>
    have split : Grove below ([tree] ++ rest) := grove
    have here := postOrder?_eq (grove.listed tree List.mem_cons_self)
      (grove.tree List.mem_cons_self)
    rw [List.map_cons, List.mapM_cons, here, inductionHypothesis split.right]
    rfl

/-- The walk over the lists of a tree is the recursion over the tree: it lists what the walks from
the nodes below the root list, one after the other, and then the root. The order is one from
below. -/
theorem postOrder?_recursive (below : Array (List Nat)) (tree : RoseTree Nat)
    (listed : tree.ListedIn below) (distinct : tree.values.Nodup) :
    postOrder? below tree.value = some tree.postorder ∧ FromBelow tree tree.postorder ∧
      ∃ nodes orders, below[tree.value]? = some nodes ∧
        nodes.mapM (postOrder? below) = some orders ∧
        tree.postorder = orders.flatten ++ [tree.value] := by
  refine ⟨postOrder?_eq listed distinct, fromBelow_postorder distinct, ?_⟩
  cases listed with
  | @node id children here all =>
    have grove := Grove.children (.node here all) distinct
    refine ⟨_, _, here, mapM_postOrder? grove, ?_⟩
    rw [postorder, postorderAll_eq_flatMap, List.flatMap_def, value]

/-- A tree with subtrees of three heights, whose root is not the first of the numbers. -/
def branched : RoseTree Nat :=
  .node 3 [.node 1 [.node 2 []], .node 0 [], .node 4 [.node 7 [.node 6 []]]]

/-- Lists that hold the tree and a node outside it. -/
def branchedBelow : Array (List Nat) :=
  #[[], [2], [], [1, 0, 4], [7], [6], [], [6]]

theorem postOrder?_recursive_branched :
    branched.ListedIn branchedBelow ∧ branched.values.Nodup ∧
      postOrder? branchedBelow 3 = some [2, 1, 0, 6, 7, 4, 3] ∧
      FromBelow branched [2, 1, 0, 6, 7, 4, 3] ∧
      ∃ nodes orders, branchedBelow[3]? = some nodes ∧
        nodes.mapM (postOrder? branchedBelow) = some orders ∧
        [2, 1, 0, 6, 7, 4, 3] = orders.flatten ++ [3] :=
  ⟨by decide, by decide, postOrder?_recursive branchedBelow branched (by decide) (by decide)⟩

end ExprDiagram
