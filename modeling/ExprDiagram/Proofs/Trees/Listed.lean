/-
This file relates trees of numbers to the lists in which a layout keeps them: for each number, the
numbers directly below it. Walking over the lists visits the numbers of the tree in its order, once
each, whichever order of visits is asked for; the bound on the visits is never met.
-/

import ExprDiagram.Placement.Traversal
import ExprDiagram.Proofs.Trees.Basic
import Mathlib.Data.List.Perm.Subperm
import Mathlib.Data.List.Range

namespace ExprDiagram

namespace RoseTree

/-! ### Trees given by lists -/

/-- The lists hold the numbers below each number of the tree. -/
inductive ListedIn (below : Array (List Nat)) : RoseTree Nat → Prop
  | node {id : Nat} {children : List (RoseTree Nat)}
    (listed : below[id]? = some (children.map value))
    (all : ∀ tree ∈ children, ListedIn below tree) : ListedIn below (.node id children)

variable {below : Array (List Nat)}

mutual
/-- Whether a tree is given by lists can be found out by looking every number up. -/
def decideListedIn (below : Array (List Nat)) : ∀ tree : RoseTree Nat,
    Decidable (tree.ListedIn below)
  | .node id children =>
    if listed : below[id]? = some (children.map value) then
      match decideListedInAll below children with
      | isTrue all => isTrue (.node listed all)
      | isFalse missing => isFalse fun | .node _ all => missing all
    else isFalse fun | .node here _ => listed here

def decideListedInAll (below : Array (List Nat)) : ∀ trees : List (RoseTree Nat),
    Decidable (∀ tree ∈ trees, tree.ListedIn below)
  | [] => isTrue fun _ member => absurd member List.not_mem_nil
  | first :: rest =>
    match decideListedIn below first, decideListedInAll below rest with
    | isTrue here, isTrue all => isTrue (List.forall_mem_cons.mpr ⟨here, all⟩)
    | isFalse missing, _ => isFalse fun all => missing (all first List.mem_cons_self)
    | _, isFalse missing =>
      isFalse fun all => missing fun tree member => all tree (List.mem_cons_of_mem _ member)
end

instance (tree : RoseTree Nat) : Decidable (tree.ListedIn below) := decideListedIn below tree

theorem ListedIn.congr {first second : Array (List Nat)} {tree : RoseTree Nat}
    (listed : tree.ListedIn first) (same : ∀ id ∈ tree.values, first[id]? = second[id]?) :
    tree.ListedIn second := by
  induction tree using RoseTree.induct with
  | node id children inductionHypothesis =>
    cases listed with
    | node here all =>
      refine .node ((same id List.mem_cons_self).symm.trans here) fun child member => ?_
      exact inductionHypothesis child member (all child member) fun other inChild =>
        same other (List.mem_cons_of_mem _ (values_subset_valuesAll member inChild))

theorem ListedIn.map {renamed : Array (List Nat)} {rename : Nat → Nat} {tree : RoseTree Nat}
    (listed : tree.ListedIn below) (same : ∀ id ∈ tree.values, ∀ nodes, below[id]? = some nodes →
      renamed[rename id]? = some (nodes.map rename)) :
    (tree.map rename).ListedIn renamed := by
  induction tree using RoseTree.induct with
  | node id children inductionHypothesis =>
    cases listed with
    | node here all =>
      rw [map_node]
      refine .node ?_ fun child member => ?_
      · rw [same id List.mem_cons_self _ here, List.map_map, List.map_map]
        refine congrArg some (List.map_congr_left fun child _ => ?_)
        exact (value_map rename child).symm
      · obtain ⟨original, inChildren, rfl⟩ := List.mem_map.mp member
        exact inductionHypothesis original inChildren (all original inChildren) fun other inChild =>
          same other (List.mem_cons_of_mem _ (values_subset_valuesAll inChildren inChild))

theorem ListedIn.value_lt {tree : RoseTree Nat} (listed : tree.ListedIn below) :
    tree.value < below.size := by
  cases listed with
  | node listed => exact (Array.getElem?_eq_some_iff.mp listed).1

theorem ListedIn.values_lt {tree : RoseTree Nat} (listed : tree.ListedIn below) :
    ∀ id ∈ tree.values, id < below.size := by
  induction tree using RoseTree.induct with
  | node id children inductionHypothesis =>
    intro other member
    rw [values, List.mem_cons] at member
    rcases member with rfl | inChildren
    · exact listed.value_lt
    · rw [valuesAll_eq_flatMap] at inChildren
      obtain ⟨child, childMember, inChild⟩ := List.mem_flatMap.mp inChildren
      cases listed with
      | node _ all => exact inductionHypothesis child childMember (all child childMember) other inChild

/-- The numbers below a number of the tree are numbers of the tree, and not that at its top. -/
theorem ListedIn.below_subset {tree : RoseTree Nat} (listed : tree.ListedIn below) :
    ∀ id ∈ tree.values, ∃ nodes, below[id]? = some nodes ∧ nodes ⊆ valuesAll tree.children := by
  induction tree using RoseTree.induct with
  | node top children inductionHypothesis =>
    intro id member
    cases listed with
    | node here all =>
      rw [values, List.mem_cons] at member
      rcases member with rfl | inChildren
      · refine ⟨_, here, fun other inNodes => ?_⟩
        obtain ⟨child, childMember, rfl⟩ := List.mem_map.mp inNodes
        exact values_subset_valuesAll childMember child.value_mem_values
      · rw [valuesAll_eq_flatMap] at inChildren
        obtain ⟨child, childMember, inChild⟩ := List.mem_flatMap.mp inChildren
        obtain ⟨nodes, found, inside⟩ :=
          inductionHypothesis child childMember (all child childMember) id inChild
        refine ⟨nodes, found, fun other inNodes => ?_⟩
        exact values_subset_valuesAll childMember (child.valuesAll_children_subset (inside inNodes))

/-- The numbers below a number of a row stand in the next row. -/
theorem ListedIn.row_below {tree : RoseTree Nat} (listed : tree.ListedIn below) {row id child : Nat}
    {nodes : List Nat} (inRow : id ∈ tree.row row) (found : below[id]? = some nodes)
    (member : child ∈ nodes) : child ∈ tree.row (row + 1) := by
  induction tree using RoseTree.induct generalizing row with
  | node top children inductionHypothesis =>
    cases listed with
    | node here all =>
      rw [row_succ]
      cases row with
      | zero =>
        rw [row_zero, List.mem_singleton] at inRow
        subst inRow
        obtain rfl := Option.some.inj (here.symm.trans found)
        rwa [← rowAll_zero] at member
      | succ row =>
        rw [row_succ] at inRow
        obtain ⟨tree, inChildren, inTree⟩ := List.mem_flatMap.mp inRow
        exact List.mem_flatMap.mpr ⟨tree, inChildren,
          inductionHypothesis tree inChildren (all tree inChildren) inTree⟩

/-- Trees that are given by lists and have no number in common. -/
structure Grove (below : Array (List Nat)) (trees : List (RoseTree Nat)) : Prop where
  listed : ∀ tree ∈ trees, tree.ListedIn below
  distinct : (valuesAll trees).Nodup

theorem Grove.values_lt {trees : List (RoseTree Nat)} (grove : Grove below trees) :
    ∀ id ∈ valuesAll trees, id < below.size := by
  intro id member
  rw [valuesAll_eq_flatMap] at member
  obtain ⟨tree, inTrees, inTree⟩ := List.mem_flatMap.mp member
  exact (grove.listed tree inTrees).values_lt id inTree

/-- Different numbers of trees are different places of the lists. -/
theorem Grove.length_le {trees : List (RoseTree Nat)} (grove : Grove below trees) :
    (valuesAll trees).length ≤ below.size := by
  have within : valuesAll trees ⊆ List.range below.size :=
    fun id member => List.mem_range.mpr (grove.values_lt id member)
  have length := (List.subperm_of_subset grove.distinct within).length_le
  rwa [List.length_range] at length

theorem Grove.left {first second : List (RoseTree Nat)} (grove : Grove below (first ++ second)) :
    Grove below first :=
  ⟨fun tree member => grove.listed tree (List.mem_append_left _ member),
    (List.nodup_append.mp (valuesAll_append first second ▸ grove.distinct)).1⟩

theorem Grove.right {first second : List (RoseTree Nat)} (grove : Grove below (first ++ second)) :
    Grove below second :=
  ⟨fun tree member => grove.listed tree (List.mem_append_right _ member),
    (List.nodup_append.mp (valuesAll_append first second ▸ grove.distinct)).2.1⟩

theorem Grove.disjoint {first second : List (RoseTree Nat)}
    (grove : Grove below (first ++ second)) :
    ∀ id ∈ valuesAll first, id ∉ valuesAll second := by
  intro id inFirst inSecond
  have distinct := grove.distinct
  rw [valuesAll_append] at distinct
  exact (List.nodup_append.mp distinct).2.2 id inFirst id inSecond rfl

theorem Grove.tree {trees : List (RoseTree Nat)} (grove : Grove below trees) {tree : RoseTree Nat}
    (member : tree ∈ trees) : tree.values.Nodup := by
  obtain ⟨before, after, rfl⟩ := List.append_of_mem member
  have distinct := grove.right.distinct
  rw [valuesAll] at distinct
  exact (List.nodup_append.mp distinct).1

theorem Grove.singleton {tree : RoseTree Nat} (listed : tree.ListedIn below)
    (distinct : tree.values.Nodup) : Grove below [tree] := by
  refine ⟨List.forall_mem_singleton.mpr listed, ?_⟩
  rwa [valuesAll_singleton]

theorem Grove.children {id : Nat} {children : List (RoseTree Nat)}
    (listed : (RoseTree.node id children).ListedIn below)
    (distinct : (RoseTree.node id children).values.Nodup) : Grove below children := by
  cases listed with
  | node _ all => exact ⟨all, (List.nodup_cons.mp distinct).2⟩

/-- The list of a number; numbers outside the lists have an empty one. -/
def list (below : Array (List Nat)) (id : Nat) : List Nat := below[id]?.getD []

/-- All lists one after the other, where each is made from one member of an array. -/
theorem flatMap_list_range {α : Type} (members : Array α) (lower : α → List Nat) :
    (List.range members.size).flatMap (list (members.map lower)) =
      members.toList.flatMap lower := by
  rw [List.flatMap_def, List.flatMap_def]
  refine congrArg List.flatten (List.ext_getElem ?_ fun index inRange inMembers => ?_)
  · rw [List.length_map, List.length_map, List.length_range, Array.length_toList]
  · rw [List.length_map, Array.length_toList] at inMembers
    rw [List.getElem_map, List.getElem_map, List.getElem_range, list, Array.getElem?_map,
      Array.getElem?_eq_getElem inMembers, Array.getElem_toList]
    rfl

theorem lists_perm_of_each {trees : List (RoseTree Nat)}
    (each : ∀ tree ∈ trees, (tree.values.flatMap (list below)).Perm (valuesAll tree.children)) :
    (trees.map value ++ (valuesAll trees).flatMap (list below)).Perm (valuesAll trees) := by
  induction trees with
  | nil => exact .nil
  | cons tree rest inductionHypothesis =>
    obtain ⟨id, children⟩ := tree
    have here := each (.node id children) List.mem_cons_self
    have others := inductionHypothesis
      fun other member => each other (List.mem_cons_of_mem _ member)
    rw [valuesAll, List.flatMap_append]
    refine List.Perm.cons id ?_
    refine (List.perm_append_comm_assoc _ _ _).trans ?_
    exact here.append others

/-- Every number of a tree but that at its top stands once in the lists of its numbers. -/
theorem ListedIn.lists_perm {tree : RoseTree Nat} (listed : tree.ListedIn below) :
    (tree.values.flatMap (list below)).Perm (valuesAll tree.children) := by
  induction tree using RoseTree.induct with
  | node id children inductionHypothesis =>
    cases listed with
    | node here all =>
      rw [values, List.flatMap_cons, list, here]
      exact lists_perm_of_each
        fun child member => inductionHypothesis child member (all child member)

/-! ### Walks -/

theorem size_le_visitBound (below : Array (List Nat)) : below.size ≤ visitBound below :=
  Nat.le_add_right _ _

/-- A walk that takes the numbers below from the left lists the values before those below them. -/
theorem visit?_id (trees : List (RoseTree Nat)) (listed : ∀ tree ∈ trees, tree.ListedIn below)
    (limit : Nat) (enough : (valuesAll trees).length ≤ limit) (visits : List Nat) :
    visit? below id limit (trees.map value) visits = some ((valuesAll trees).reverse ++ visits) := by
  induction limit generalizing trees visits with
  | zero =>
    cases trees with
    | nil => rfl
    | cons tree rest =>
      obtain ⟨value, children⟩ := tree
      simp only [valuesAll, values, List.length_append, List.length_cons] at enough
      omega
  | succ limit inductionHypothesis =>
    cases trees with
    | nil => rfl
    | cons tree rest =>
      cases listed tree List.mem_cons_self with
      | @node node children here all =>
        have smaller : (valuesAll (children ++ rest)).length ≤ limit := by
          rw [valuesAll, values, List.cons_append, List.length_cons] at enough
          rw [valuesAll_append]
          omega
        have listedAll : ∀ tree ∈ children ++ rest, tree.ListedIn below := by
          intro tree member
          rcases List.mem_append.mp member with inChildren | inRest
          · exact all tree inChildren
          · exact listed tree (List.mem_cons_of_mem _ inRest)
        rw [List.map_cons, value, visit?, here]
        simp only
        rw [id, ← List.map_append, inductionHypothesis _ listedAll smaller, valuesAll, values,
          valuesAll_append, List.cons_append, List.reverse_cons, List.append_assoc,
          List.singleton_append]

theorem postorderAll_append (first second : List (RoseTree Nat)) :
    postorderAll (first ++ second) = postorderAll first ++ postorderAll second := by
  induction first with
  | nil => rfl
  | cons tree rest inductionHypothesis =>
    rw [List.cons_append, postorderAll, postorderAll, inductionHypothesis, List.append_assoc]

theorem postorderAll_singleton (tree : RoseTree Nat) : postorderAll [tree] = tree.postorder := by
  rw [postorderAll, postorderAll, List.append_nil]

theorem valuesAll_reverse_perm (trees : List (RoseTree Nat)) :
    (valuesAll trees.reverse).Perm (valuesAll trees) := by
  rw [valuesAll_eq_flatMap, valuesAll_eq_flatMap]
  exact (List.reverse_perm trees).flatMap_right values

/-- A walk that takes the numbers below from the right lists the values, the latest first, after
those below them. -/
theorem visit?_reverse (trees : List (RoseTree Nat))
    (listed : ∀ tree ∈ trees, tree.ListedIn below) (limit : Nat)
    (enough : (valuesAll trees).length ≤ limit) (visits : List Nat) :
    visit? below List.reverse limit (trees.map value) visits =
      some (postorderAll trees.reverse ++ visits) := by
  induction limit generalizing trees visits with
  | zero =>
    cases trees with
    | nil => rfl
    | cons tree rest =>
      obtain ⟨value, children⟩ := tree
      simp only [valuesAll, values, List.length_append, List.length_cons] at enough
      omega
  | succ limit inductionHypothesis =>
    cases trees with
    | nil => rfl
    | cons tree rest =>
      cases listed tree List.mem_cons_self with
      | @node node children here all =>
        have smaller : (valuesAll (children.reverse ++ rest)).length ≤ limit := by
          rw [valuesAll, values, List.cons_append, List.length_cons, List.length_append] at enough
          rw [valuesAll_append, List.length_append, (valuesAll_reverse_perm children).length_eq]
          omega
        have listedAll : ∀ tree ∈ children.reverse ++ rest, tree.ListedIn below := by
          intro tree member
          rcases List.mem_append.mp member with inChildren | inRest
          · exact all tree (List.mem_reverse.mp inChildren)
          · exact listed tree (List.mem_cons_of_mem _ inRest)
        rw [List.map_cons, value, visit?, here]
        simp only
        rw [← List.map_reverse, ← List.map_append, inductionHypothesis _ listedAll smaller,
          List.reverse_append, List.reverse_reverse, List.reverse_cons, postorderAll_append,
          postorderAll_append, postorderAll_singleton, postorder, List.append_assoc,
          List.append_assoc, List.append_assoc, List.singleton_append]

/-- The numbers of a listed tree in the order of the tree. -/
theorem preOrder?_eq {tree : RoseTree Nat} (listed : tree.ListedIn below)
    (distinct : tree.values.Nodup) : preOrder? below tree.value = some tree.values := by
  have enough : (valuesAll [tree]).length ≤ visitBound below :=
    (Grove.singleton listed distinct).length_le.trans (size_le_visitBound below)
  have walk := visit?_id [tree] (List.forall_mem_singleton.mpr listed) _ enough []
  rw [List.map_singleton] at walk
  rw [preOrder?, walk, Option.map_some, List.append_nil, List.reverse_reverse, valuesAll, valuesAll,
    List.append_nil]

/-- The numbers of a listed tree in the order of the tree, each after those below it. -/
theorem postOrder?_eq {tree : RoseTree Nat} (listed : tree.ListedIn below)
    (distinct : tree.values.Nodup) : postOrder? below tree.value = some tree.postorder := by
  have enough : (valuesAll [tree]).length ≤ visitBound below :=
    (Grove.singleton listed distinct).length_le.trans (size_le_visitBound below)
  have walk := visit?_reverse [tree] (List.forall_mem_singleton.mpr listed) _ enough []
  rw [List.map_singleton] at walk
  rw [postOrder?, walk, List.reverse_singleton, postorderAll_singleton, List.append_nil]

end RoseTree

end ExprDiagram
