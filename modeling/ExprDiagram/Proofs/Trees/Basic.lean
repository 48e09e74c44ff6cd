/-
This file holds trees whose nodes carry values and have any number of children. A tree is seen in
three ways: as the list of its values with every node before those below it, as the same list with
every node after those below it, and row by row. The rows of a list of trees are the rows of the
trees side by side.
-/

import Mathlib.Data.List.Basic
import Mathlib.Order.MinMax

namespace ExprDiagram

/-- A value and the trees below it, from left to right. -/
inductive RoseTree (α : Type) where
  | node (value : α) (children : List (RoseTree α))

namespace RoseTree

variable {α β : Type}

/-- The value at the top. -/
def value : RoseTree α → α
  | node value _ => value

/-- The trees directly below the top. -/
def children : RoseTree α → List (RoseTree α)
  | node _ children => children

mutual
/-- What holds of a tree whenever it holds of the trees below its top holds of every tree. -/
theorem induct {motive : RoseTree α → Prop}
    (node : ∀ value children, (∀ tree ∈ children, motive tree) → motive (.node value children)) :
    ∀ tree, motive tree
  | .node value children => node value children (inductAll node children)

theorem inductAll {motive : RoseTree α → Prop}
    (node : ∀ value children, (∀ tree ∈ children, motive tree) → motive (.node value children)) :
    ∀ trees : List (RoseTree α), ∀ tree ∈ trees, motive tree
  | [] => fun _ member => absurd member List.not_mem_nil
  | first :: rest => List.forall_mem_cons.mpr ⟨induct node first, inductAll node rest⟩
end

/-- What changes none of the trees below a top changes nothing. -/
theorem map_eq_self {children : List (RoseTree α)} {change : RoseTree α → RoseTree α}
    (same : ∀ child ∈ children, change child = child) : children.map change = children :=
  calc children.map change
      = children.map fun child => child := List.map_congr_left same
    _ = children := List.map_id' children

/-! ### Values -/

mutual
/-- The values of a tree, each before those below it. -/
def values : RoseTree α → List α
  | node value children => value :: valuesAll children

/-- The values of the trees one after the other, each before those below it. -/
def valuesAll : List (RoseTree α) → List α
  | [] => []
  | tree :: rest => tree.values ++ valuesAll rest
end

mutual
/-- The values of a tree, each after those below it. -/
def postorder : RoseTree α → List α
  | node value children => postorderAll children ++ [value]

/-- The values of the trees one after the other, each after those below it. -/
def postorderAll : List (RoseTree α) → List α
  | [] => []
  | tree :: rest => tree.postorder ++ postorderAll rest
end

theorem valuesAll_eq_flatMap (trees : List (RoseTree α)) : valuesAll trees = trees.flatMap values := by
  induction trees with
  | nil => rfl
  | cons tree rest inductionHypothesis =>
    rw [valuesAll, inductionHypothesis, List.flatMap_cons]

theorem valuesAll_append (first second : List (RoseTree α)) :
    valuesAll (first ++ second) = valuesAll first ++ valuesAll second := by
  simp only [valuesAll_eq_flatMap, List.flatMap_append]

theorem valuesAll_singleton (tree : RoseTree α) : valuesAll [tree] = tree.values := by
  rw [valuesAll, valuesAll, List.append_nil]

theorem value_mem_values (tree : RoseTree α) : tree.value ∈ tree.values := by
  cases tree with
  | node value children => exact List.mem_cons_self

theorem valuesAll_children_subset (tree : RoseTree α) : valuesAll tree.children ⊆ tree.values := by
  cases tree with
  | node value children => exact List.subset_cons_self _ _

theorem values_subset_valuesAll {trees : List (RoseTree α)} {tree : RoseTree α}
    (member : tree ∈ trees) : tree.values ⊆ valuesAll trees := by
  intro value inTree
  rw [valuesAll_eq_flatMap]
  exact List.mem_flatMap.mpr ⟨tree, member, inTree⟩

/-! ### Mapping -/

mutual
/-- The tree of the same shape with a function applied to every value. -/
def map (change : α → β) : RoseTree α → RoseTree β
  | node value children => node (change value) (mapAll change children)

/-- The trees of the same shapes with a function applied to every value. -/
def mapAll (change : α → β) : List (RoseTree α) → List (RoseTree β)
  | [] => []
  | tree :: rest => tree.map change :: mapAll change rest
end

theorem mapAll_eq_map (change : α → β) (trees : List (RoseTree α)) :
    mapAll change trees = trees.map (map change) := by
  induction trees with
  | nil => rfl
  | cons tree rest inductionHypothesis => rw [mapAll, inductionHypothesis, List.map_cons]

mutual
theorem map_map {γ : Type} (change : α → β) (other : β → γ) : ∀ tree : RoseTree α,
    (tree.map change).map other = tree.map (other ∘ change)
  | node value children => by
    rw [map, map, map, mapAll_mapAll, Function.comp_apply]

theorem mapAll_mapAll {γ : Type} (change : α → β) (other : β → γ) : ∀ trees : List (RoseTree α),
    mapAll other (mapAll change trees) = mapAll (other ∘ change) trees
  | [] => rfl
  | tree :: rest => by
    rw [mapAll, mapAll, mapAll, map_map, mapAll_mapAll]
end

theorem map_node (change : α → β) (value : α) (children : List (RoseTree α)) :
    (node value children).map change = node (change value) (children.map (map change)) := by
  rw [map, mapAll_eq_map]

theorem value_map (change : α → β) (tree : RoseTree α) :
    (tree.map change).value = change tree.value := by
  cases tree with
  | node value children => rfl

mutual
theorem values_map (change : α → β) : ∀ tree : RoseTree α,
    (tree.map change).values = tree.values.map change
  | node value children => by
    rw [map, values, values, valuesAll_mapAll, List.map_cons]

theorem valuesAll_mapAll (change : α → β) : ∀ trees : List (RoseTree α),
    valuesAll (mapAll change trees) = (valuesAll trees).map change
  | [] => rfl
  | tree :: rest => by
    rw [mapAll, valuesAll, valuesAll, values_map, valuesAll_mapAll, List.map_append]
end

theorem valuesAll_map (change : α → β) (trees : List (RoseTree α)) :
    valuesAll (trees.map (map change)) = (valuesAll trees).map change := by
  rw [← mapAll_eq_map, valuesAll_mapAll]

/-! ### Rows -/

/-- The values a number of steps below the top, from left to right. -/
def row : Nat → RoseTree α → List α
  | 0, node value _ => [value]
  | depth + 1, node _ children => children.flatMap (row depth)

/-- The rows of trees that stand side by side. -/
def rowAll (depth : Nat) (trees : List (RoseTree α)) : List α :=
  trees.flatMap (row depth)

mutual
/-- The number of rows. -/
def height : RoseTree α → Nat
  | node _ children => heightAll children + 1

/-- The number of rows of trees that stand side by side. -/
def heightAll : List (RoseTree α) → Nat
  | [] => 0
  | tree :: rest => max tree.height (heightAll rest)
end

theorem row_zero (tree : RoseTree α) : tree.row 0 = [tree.value] := by
  cases tree with
  | node value children => rfl

theorem row_succ (depth : Nat) (value : α) (children : List (RoseTree α)) :
    (node value children).row (depth + 1) = rowAll depth children := rfl

theorem rowAll_cons (depth : Nat) (tree : RoseTree α) (rest : List (RoseTree α)) :
    rowAll depth (tree :: rest) = tree.row depth ++ rowAll depth rest := List.flatMap_cons

theorem rowAll_append (depth : Nat) (first second : List (RoseTree α)) :
    rowAll depth (first ++ second) = rowAll depth first ++ rowAll depth second :=
  List.flatMap_append

theorem rowAll_singleton (depth : Nat) (tree : RoseTree α) :
    rowAll depth [tree] = tree.row depth := List.flatMap_singleton _ _

theorem rowAll_zero (trees : List (RoseTree α)) : rowAll 0 trees = trees.map value := by
  induction trees with
  | nil => rfl
  | cons tree rest inductionHypothesis =>
    rw [rowAll_cons, row_zero, inductionHypothesis, List.map_cons, List.singleton_append]

theorem heightAll_append (first second : List (RoseTree α)) :
    heightAll (first ++ second) = max (heightAll first) (heightAll second) := by
  induction first with
  | nil => rw [List.nil_append, heightAll, Nat.zero_max]
  | cons tree rest inductionHypothesis =>
    rw [List.cons_append, heightAll, heightAll, inductionHypothesis, Nat.max_assoc]

theorem heightAll_singleton (tree : RoseTree α) : heightAll [tree] = tree.height := by
  rw [heightAll, heightAll, Nat.max_zero]

theorem height_pos (tree : RoseTree α) : 0 < tree.height := by
  cases tree with
  | node value children =>
    rw [height]
    exact Nat.succ_pos _

theorem lt_heightAll_iff {depth : Nat} {trees : List (RoseTree α)} :
    depth < heightAll trees ↔ ∃ tree ∈ trees, depth < tree.height := by
  induction trees with
  | nil => simp [heightAll]
  | cons tree rest inductionHypothesis =>
    rw [heightAll, lt_max_iff, inductionHypothesis, List.exists_mem_cons_iff]

theorem row_ne_nil_iff {depth : Nat} {tree : RoseTree α} :
    tree.row depth ≠ [] ↔ depth < tree.height := by
  induction depth generalizing tree with
  | zero => simp only [row_zero, ne_eq, List.cons_ne_nil, not_false_eq_true, tree.height_pos]
  | succ depth inductionHypothesis =>
    obtain ⟨value, children⟩ := tree
    rw [row_succ, height, Nat.succ_lt_succ_iff, lt_heightAll_iff, rowAll, ne_eq,
      List.flatMap_eq_nil_iff, not_forall]
    simp only [not_forall, ← inductionHypothesis, exists_prop]

theorem rowAll_ne_nil_iff {depth : Nat} {trees : List (RoseTree α)} :
    rowAll depth trees ≠ [] ↔ depth < heightAll trees := by
  rw [lt_heightAll_iff, rowAll, ne_eq, List.flatMap_eq_nil_iff, not_forall]
  simp only [not_forall, ← row_ne_nil_iff, exists_prop]

theorem row_map (change : α → β) (depth : Nat) (tree : RoseTree α) :
    (tree.map change).row depth = (tree.row depth).map change := by
  induction depth generalizing tree with
  | zero => rw [row_zero, row_zero, value_map, List.map_singleton]
  | succ depth inductionHypothesis =>
    obtain ⟨value, children⟩ := tree
    rw [map_node, row_succ, row_succ, rowAll, rowAll, List.map_flatMap, List.flatMap_map]
    simp only [inductionHypothesis]

theorem rowAll_map (change : α → β) (depth : Nat) (trees : List (RoseTree α)) :
    rowAll depth (trees.map (map change)) = (rowAll depth trees).map change := by
  rw [rowAll, rowAll, List.map_flatMap, List.flatMap_map]
  simp only [row_map]

theorem height_map (change : α → β) (tree : RoseTree α) :
    (tree.map change).height = tree.height := by
  induction tree using RoseTree.induct with
  | node value children inductionHypothesis =>
    rw [map_node, height, height]
    congr 1
    induction children with
    | nil => rfl
    | cons tree rest inductionHypothesisRest =>
      rw [List.map_cons, heightAll, heightAll, inductionHypothesis tree List.mem_cons_self,
        inductionHypothesisRest fun other member =>
          inductionHypothesis other (List.mem_cons_of_mem _ member)]

theorem heightAll_map (change : α → β) (trees : List (RoseTree α)) :
    heightAll (trees.map (map change)) = heightAll trees := by
  induction trees with
  | nil => rfl
  | cons tree rest inductionHypothesis =>
    rw [List.map_cons, heightAll, heightAll, height_map, inductionHypothesis]

theorem row_subset_values (depth : Nat) (tree : RoseTree α) : tree.row depth ⊆ tree.values := by
  induction depth generalizing tree with
  | zero =>
    rw [row_zero]
    exact List.cons_subset.mpr ⟨tree.value_mem_values, List.nil_subset _⟩
  | succ depth inductionHypothesis =>
    obtain ⟨value, children⟩ := tree
    intro other member
    obtain ⟨child, inChildren, inRow⟩ := List.mem_flatMap.mp member
    exact List.mem_cons_of_mem _
      (values_subset_valuesAll inChildren (inductionHypothesis child inRow))

theorem rowAll_subset_valuesAll (depth : Nat) (trees : List (RoseTree α)) :
    rowAll depth trees ⊆ valuesAll trees := by
  intro value member
  obtain ⟨tree, inTrees, inRow⟩ := List.mem_flatMap.mp member
  exact values_subset_valuesAll inTrees (row_subset_values depth tree inRow)

/-- Every value stands in one of the rows. -/
theorem exists_row {tree : RoseTree α} {value : α} (member : value ∈ tree.values) :
    ∃ depth, value ∈ tree.row depth := by
  induction tree using RoseTree.induct with
  | node top children inductionHypothesis =>
    rw [values, List.mem_cons] at member
    rcases member with rfl | inChildren
    · exact ⟨0, by rw [row_zero]; exact List.mem_cons_self⟩
    · rw [valuesAll_eq_flatMap] at inChildren
      obtain ⟨child, childMember, inChild⟩ := List.mem_flatMap.mp inChildren
      obtain ⟨depth, inRow⟩ := inductionHypothesis child childMember inChild
      exact ⟨depth + 1, List.mem_flatMap.mpr ⟨child, childMember, inRow⟩⟩

theorem exists_rowAll {trees : List (RoseTree α)} {value : α} (member : value ∈ valuesAll trees) :
    ∃ depth, value ∈ rowAll depth trees := by
  rw [valuesAll_eq_flatMap] at member
  obtain ⟨tree, inTrees, inTree⟩ := List.mem_flatMap.mp member
  obtain ⟨depth, inRow⟩ := exists_row inTree
  exact ⟨depth, List.mem_flatMap.mpr ⟨tree, inTrees, inRow⟩⟩

mutual
/-- A tree has no more rows than values. -/
theorem height_le_length : ∀ tree : RoseTree α, tree.height ≤ tree.values.length
  | node value children => by
    rw [height, values, List.length_cons]
    exact Nat.succ_le_succ (heightAll_le_length children)

theorem heightAll_le_length : ∀ trees : List (RoseTree α),
    heightAll trees ≤ (valuesAll trees).length
  | [] => Nat.le_refl _
  | tree :: rest => by
    rw [heightAll, valuesAll, List.length_append]
    have first := height_le_length tree
    have others := heightAll_le_length rest
    omega
end

end RoseTree

end ExprDiagram
