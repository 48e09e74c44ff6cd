/-
This file relates the rows of a tree to the order of its values and to its subtrees. When a function
gives each value the number of its row, a row can be read off the values in their order; and the rows
of two subtrees side by side are parts of one row of the whole tree, the left one before the right.
-/

import ExprDiagram.Proofs.Trees.Basic
import Mathlib.Data.List.Nodup
import Mathlib.Data.List.Range

namespace ExprDiagram

namespace RoseTree

variable {α β : Type}

/-! ### Functions on values -/

theorem map_congr {first second : α → β} {tree : RoseTree α}
    (same : ∀ value ∈ tree.values, first value = second value) : tree.map first = tree.map second := by
  induction tree using RoseTree.induct with
  | node value children inductionHypothesis =>
    rw [map_node, map_node, same value List.mem_cons_self]
    congr 1
    refine List.map_congr_left fun child member => inductionHypothesis child member ?_
    exact fun other inChild =>
      same other (List.mem_cons_of_mem _ (values_subset_valuesAll member inChild))

theorem map_id (tree : RoseTree α) : tree.map (fun value => value) = tree := by
  induction tree using RoseTree.induct with
  | node value children inductionHypothesis =>
    rw [map_node, map_eq_self inductionHypothesis]

/-- In a table with different keys, each entry is found by its key. -/
theorem lookup_of_mem [DecidableEq α] {entries : List (α × β)} {entry : α × β}
    (distinct : (entries.map Prod.fst).Nodup) (member : entry ∈ entries) :
    entries.lookup entry.1 = some entry.2 := by
  obtain ⟨before, after, split⟩ := List.append_of_mem member
  refine List.lookup_eq_some_iff.mpr ⟨before, after, split, fun other inBefore => ?_⟩
  rw [split, List.map_append, List.map_cons] at distinct
  have different := (List.nodup_append.mp distinct).2.2 other.1 (List.mem_map_of_mem inBefore)
    entry.1 List.mem_cons_self
  exact bne_iff_ne.mpr (Ne.symm different)

/-- A tree of pairs with different keys is known from its keys and the table of its values. -/
theorem eq_map_lookup [DecidableEq α] {tree : RoseTree (α × β)}
    (distinct : (tree.values.map Prod.fst).Nodup) (default : β) :
    tree = (tree.map Prod.fst).map fun key => (key, (tree.values.lookup key).getD default) := by
  rw [map_map]
  refine (map_id tree).symm.trans (map_congr fun pair member => ?_)
  show pair = (pair.1, (tree.values.lookup pair.1).getD default)
  rw [lookup_of_mem distinct member, Option.getD_some]

/-! ### Rows in the order of the values -/

/-- Each value stands in the row that a function gives for it. -/
def Rowed (level : α → Nat) (base : Nat) (tree : RoseTree α) : Prop :=
  ∀ row, ∀ value ∈ tree.row row, level value = base + row

variable {level : α → Nat} {base : Nat} {tree : RoseTree α}

theorem Rowed.child {value : α} {children : List (RoseTree α)}
    (rowed : Rowed level base (.node value children)) {child : RoseTree α}
    (member : child ∈ children) : Rowed level (base + 1) child := by
  intro row other inRow
  rw [rowed (row + 1) other (List.mem_flatMap.mpr ⟨child, member, inRow⟩)]
  omega

theorem Rowed.le_level (rowed : Rowed level base tree) {value : α} (member : value ∈ tree.values) :
    base ≤ level value := by
  obtain ⟨row, inRow⟩ := exists_row member
  rw [rowed row value inRow]
  exact Nat.le_add_right _ _

theorem filter_flatMap {trees : List (RoseTree α)} (keep : α → Bool) (row : RoseTree α → List α)
    (each : ∀ tree ∈ trees, tree.values.filter keep = row tree) :
    (valuesAll trees).filter keep = trees.flatMap row := by
  induction trees with
  | nil => rfl
  | cons first rest inductionHypothesis =>
    rw [valuesAll, List.filter_append, each first List.mem_cons_self, List.flatMap_cons,
      inductionHypothesis fun other member => each other (List.mem_cons_of_mem _ member)]

/-- The values of a row, in their order. -/
theorem Rowed.filter_values (rowed : Rowed level base tree) (row : Nat) :
    (tree.values.filter fun value => level value = base + row) = tree.row row := by
  induction tree using RoseTree.induct generalizing base row with
  | node value children inductionHypothesis =>
    have top : level value = base := rowed 0 value (by rw [row_zero]; exact List.mem_cons_self)
    rw [values, List.filter_cons]
    cases row with
    | zero =>
      rw [if_pos (decide_eq_true (show level value = base + 0 from top)), row_zero]
      congr 1
      refine List.filter_eq_nil_iff.mpr fun other member equal => ?_
      rw [valuesAll_eq_flatMap] at member
      obtain ⟨child, inChildren, inChild⟩ := List.mem_flatMap.mp member
      have deeper := (rowed.child inChildren).le_level inChild
      have level := of_decide_eq_true equal
      omega
    | succ row =>
      have different : ¬ decide (level value = base + (row + 1)) = true := by
        intro equal
        have level := of_decide_eq_true equal
        omega
      rw [if_neg different, row_succ]
      refine filter_flatMap _ _ fun child member => ?_
      rw [← inductionHypothesis child member (rowed.child member) row]
      congr 1
      funext other
      rw [Nat.add_assoc, Nat.add_comm 1 row]

/-- What holds between the values of each row holds between values of equal rows in their order. -/
theorem Rowed.pairwise_values (rowed : Rowed level base tree) {related : α → α → Prop}
    (rows : ∀ row, (tree.row row).Pairwise related) :
    tree.values.Pairwise fun first second => level first = level second → related first second := by
  refine List.pairwise_iff_forall_sublist.mpr fun {first second} sublist same => ?_
  obtain ⟨row, inRow⟩ := exists_row (sublist.subset List.mem_cons_self)
  have here := rowed row first inRow
  have kept : [first, second].filter (fun value => level value = base + row) = [first, second] := by
    rw [List.filter_cons, if_pos (decide_eq_true here), List.filter_cons,
      if_pos (decide_eq_true (same ▸ here)), List.filter_nil]
  have inRows := sublist.filter fun value => level value = base + row
  rw [kept, rowed.filter_values row] at inRows
  exact List.pairwise_iff_forall_sublist.mp (rows row) inRows

/-! ### Subtrees -/

/-- One tree stands in the other, with its top at the given depth. -/
inductive Subtree : Nat → RoseTree α → RoseTree α → Prop
  | top (tree : RoseTree α) : Subtree 0 tree tree
  | inside {depth : Nat} {small child : RoseTree α} {value : α} {children : List (RoseTree α)}
    (member : child ∈ children) (subtree : Subtree depth small child) :
    Subtree (depth + 1) small (.node value children)

variable {small : RoseTree α} {depth : Nat}

theorem Subtree.map (change : α → β) (subtree : Subtree depth small tree) :
    Subtree depth (small.map change) (tree.map change) := by
  induction subtree with
  | top => exact .top _
  | inside member _ inductionHypothesis =>
    rw [map_node]
    exact .inside (List.mem_map_of_mem member) inductionHypothesis

theorem Subtree.child {value : α} {children : List (RoseTree α)} {child : RoseTree α}
    (subtree : Subtree depth (.node value children) tree) (member : child ∈ children) :
    Subtree (depth + 1) child tree := by
  generalize same : node value children = small at subtree
  induction subtree with
  | top => exact same ▸ .inside member (.top child)
  | inside inChildren _ inductionHypothesis => exact .inside inChildren (inductionHypothesis same)

/-- Every value stands at the top of a subtree. -/
theorem exists_subtree {value : α} (member : value ∈ tree.values) :
    ∃ depth small, Subtree depth small tree ∧ small.value = value := by
  induction tree using RoseTree.induct with
  | node top children inductionHypothesis =>
    rcases List.mem_cons.mp member with rfl | inChildren
    · exact ⟨0, _, .top _, rfl⟩
    · rw [valuesAll_eq_flatMap] at inChildren
      obtain ⟨child, childMember, inChild⟩ := List.mem_flatMap.mp inChildren
      obtain ⟨depth, small, subtree, same⟩ := inductionHypothesis child childMember inChild
      exact ⟨depth + 1, small, .inside childMember subtree, same⟩

theorem infix_flatMap_of_mem {trees : List (RoseTree α)} (list : RoseTree α → List α)
    {tree : RoseTree α} (member : tree ∈ trees) : list tree <:+: trees.flatMap list := by
  obtain ⟨before, after, rfl⟩ := List.append_of_mem member
  rw [List.flatMap_append, List.flatMap_cons]
  exact ⟨before.flatMap list, after.flatMap list, List.append_assoc _ _ _⟩

/-- The values of a subtree stand next to each other. -/
theorem Subtree.values_infix (subtree : Subtree depth small tree) :
    small.values <:+: tree.values := by
  induction subtree with
  | top => exact List.infix_refl _
  | @inside depth small child value children member _ inductionHypothesis =>
    refine inductionHypothesis.trans (List.IsInfix.trans ?_ (List.suffix_cons value _).isInfix)
    rw [valuesAll_eq_flatMap]
    exact infix_flatMap_of_mem values member

theorem valuesAll_sublist {first second : List (RoseTree α)} (sublist : first.Sublist second) :
    (valuesAll first).Sublist (valuesAll second) := by
  induction sublist with
  | slnil => exact List.Sublist.refl _
  | cons tree _ inductionHypothesis =>
    exact inductionHypothesis.trans (List.sublist_append_right tree.values _)
  | cons_cons tree _ inductionHypothesis => exact inductionHypothesis.append_left tree.values

theorem Subtree.values_sublist (subtree : Subtree depth small tree) :
    small.values.Sublist tree.values :=
  subtree.values_infix.sublist

theorem Subtree.valuesAll_children_subset (subtree : Subtree depth small tree) :
    valuesAll small.children ⊆ valuesAll tree.children := by
  cases subtree with
  | top => exact List.Subset.refl _
  | inside member subtree =>
    exact List.Subset.trans
      (List.Subset.trans small.valuesAll_children_subset subtree.values_infix.subset)
      (values_subset_valuesAll member)

theorem Subtree.row_subset (subtree : Subtree depth small tree) (row : Nat) :
    small.row row ⊆ tree.row (depth + row) := by
  induction subtree with
  | top => rw [Nat.zero_add]; exact List.Subset.refl _
  | @inside depth small child value children member _ inductionHypothesis =>
    have deeper : depth + 1 + row = depth + row + 1 := by omega
    rw [deeper, row_succ]
    exact List.Subset.trans inductionHypothesis
      (infix_flatMap_of_mem (RoseTree.row (depth + row)) member).subset

end RoseTree

end ExprDiagram
