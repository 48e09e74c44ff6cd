/-
This file says which tree is selected from any lists of children, circles and repeated children
included, and from any depths. The tree has the nodes that can be reached from the root by steps of
exactly one row down; each of them but the root hangs below one other, the first in the order of the
tree that such a step leads from. Depths alone keep the tree from closing to a circle.
-/

import ExprDiagram.Proofs.Diagram.Adoption
import Mathlib.Data.List.Nodup

namespace ExprDiagram

open Relation RoseTree

variable {children below : Array (List Nat)} {depth : Array Nat} {root node child : Nat}
variable {pending nodes : List Nat} {first second after : Hanging} {trees : List (RoseTree Nat)}

theorem RoseTree.ListedIn.reaches {tree : RoseTree Nat} {relation : Nat → Nat → Prop}
    (listed : tree.ListedIn below)
    (steps : ∀ id ∈ tree.values, ∀ child ∈ list below id, relation id child) :
    ∀ id ∈ tree.values, ReflTransGen relation tree.value id := by
  induction tree using RoseTree.induct with
  | node top lower inductionHypothesis =>
    intro id member
    cases listed with
    | node here all =>
      rcases List.mem_cons.mp member with rfl | inLower
      · exact .refl
      · rw [valuesAll_eq_flatMap] at inLower
        obtain ⟨child, inChildren, inChild⟩ := List.mem_flatMap.mp inLower
        have first : relation top child.value := by
          refine steps top List.mem_cons_self _ ?_
          rw [list, here, Option.getD_some]
          exact List.mem_map_of_mem inChildren
        have further : ∀ other ∈ child.values, ∀ next ∈ list below other, relation other next :=
          fun other inOther => steps other
            (List.mem_cons_of_mem _ (values_subset_valuesAll inChildren inOther))
        exact .head first
          (inductionHypothesis child inChildren (all child inChildren) further id inChild)

/-- Every number below another belongs to one list only. -/
theorem RoseTree.ListedIn.sole {tree : RoseTree Nat} (listed : tree.ListedIn below)
    (distinct : tree.values.Nodup) {first second child : Nat} (inFirst : first ∈ tree.values)
    (inSecond : second ∈ tree.values) (hangsFirst : child ∈ list below first)
    (hangsSecond : child ∈ list below second) : first = second := by
  have all : (tree.values.flatMap (list below)).Nodup := by
    rw [listed.lists_perm.nodup_iff]
    cases tree with
    | node top lower => exact (List.nodup_cons.mp distinct).2
  have symmetric : Std.Symm (Function.onFun List.Disjoint (list below)) :=
    ⟨fun _ _ apart => List.disjoint_symm apart⟩
  by_contra different
  exact (List.nodup_flatMap.mp all).2.forall inFirst inSecond different hangsFirst hangsSecond

theorem list_eq_of_getElem? (found : children[node]? = some nodes) :
    list children node = nodes := by
  rw [list, found, Option.getD_some]

theorem step_iff_mem_list : Step children node child ↔ child ∈ list children node := by
  constructor
  · rintro ⟨nodes, found, member⟩
    rwa [list_eq_of_getElem? found]
  · intro member
    cases found : children[node]? with
    | none =>
      rw [list, found] at member
      cases member
    | some nodes => exact ⟨nodes, found, list_eq_of_getElem? found ▸ member⟩

/-- The tree that is selected from a root. -/
structure Selected (children : Array (List Nat)) (depth : Array Nat) (root : Nat)
    (below : Array (List Nat)) (tree : RoseTree Nat) : Prop where
  top : tree.value = root
  listed : tree.ListedIn below
  distinct : tree.values.Nodup
  size : below.size = children.size
  /-- The root hangs below no node. -/
  root_free : ∀ node, root ∉ list below node
  /-- Every other node hangs below one at most. -/
  sole : ∀ first second child, child ∈ list below first → child ∈ list below second →
    first = second
  mem_iff : ∀ node, node ∈ tree.values ↔ ReflTransGen (Tight children depth) root node
  outside : ∀ node, node < children.size → node ∉ tree.values → below[node]? = some []
  /-- The nodes below a node are in the order in which they first stand in its list. -/
  chosen : ∀ node ∈ tree.values, Chosen (list below node) (list children node)
  /-- A node hangs below the first that it can hang below. -/
  mem_below_iff : ∀ node ∈ tree.values, ∀ child, child ∈ list below node ↔
    Tight children depth node child ∧ ∀ other ∈ tree.values, Tight children depth other child →
      tree.values.idxOf node ≤ tree.values.idxOf other


/-! ### The tree of a walk -/

section Walk

variable (found : children[root]? = some nodes) (bound : root < children.size)
variable (hung : Hung children depth root nodes (.initial children.size) after trees)

include hung

theorem Hung.size_after : after.below.size = children.size :=
  hung.below_size.trans Array.size_replicate

theorem Hung.getElem?_outside {id : Nat} (inLists : id < children.size)
    (apart : id ∉ (RoseTree.node root trees).values) : after.below[id]? = some [] := by
  have notRoot : id ≠ root := fun same => apart (same ▸ List.mem_cons_self)
  rw [hung.outside id (fun member => apart (List.mem_cons_of_mem _ member)) notRoot,
    Hanging.initial_below inLists]

theorem Hung.mem_of_hangs {id : Nat} (hangs : child ∈ list after.below id) :
    id ∈ (RoseTree.node root trees).values := by
  by_contra apart
  obtain ⟨lower, here, member⟩ := step_iff_mem_list.mpr hangs
  have inLists := (Array.getElem?_eq_some_iff.mp here).1
  cases here.symm.trans (hung.getElem?_outside (hung.size_after ▸ inLists) apart)
  cases member

include bound

theorem Hung.listed_root : (RoseTree.node root trees).ListedIn after.below :=
  hung.top_listed (Hanging.initial_below bound)

theorem Hung.sole_hangs {first second : Nat} (hangsFirst : child ∈ list after.below first)
    (hangsSecond : child ∈ list after.below second) : first = second :=
  hung.listed_root bound |>.sole hung.top_distinct (hung.mem_of_hangs hangsFirst)
    (hung.mem_of_hangs hangsSecond) hangsFirst hangsSecond

/-- What hangs below a node is a node of the tree, and not that at its top. -/
theorem Hung.hangs_iff : (∃ id, child ∈ list after.below id) ↔ child ∈ valuesAll trees := by
  have perm := (hung.listed_root bound).lists_perm
  constructor
  · rintro ⟨id, hangs⟩
    exact perm.mem_iff.mp (List.mem_flatMap.mpr ⟨id, hung.mem_of_hangs hangs, hangs⟩)
  · intro member
    obtain ⟨id, _, hangs⟩ := List.mem_flatMap.mp (perm.mem_iff.mpr member)
    exact ⟨id, hangs⟩

include found

theorem Hung.chosen_list {id : Nat} (member : id ∈ (RoseTree.node root trees).values) :
    Chosen (list after.below id) (list children id) := by
  have inLists : id < children.size :=
    hung.size_after ▸ (hung.listed_root bound).values_lt id member
  have here := Array.getElem?_eq_getElem inLists
  obtain ⟨lower, hangs, chosen⟩ :=
    hung.top_chosen found (Hanging.initial_below bound) id member _ here
  rwa [list_eq_of_getElem? hangs, list_eq_of_getElem? here]

/-- What hangs below a node stands in its list, exactly one row below it. -/
theorem Hung.tight_of_hangs {id : Nat} (hangs : child ∈ list after.below id) :
    Tight children depth id child := by
  have member := hung.mem_of_hangs hangs
  refine ⟨step_iff_mem_list.mpr ((hung.chosen_list found bound member).subset hangs), ?_⟩
  obtain ⟨row, inRow⟩ := exists_row member
  obtain ⟨lower, here, inLower⟩ := step_iff_mem_list.mpr hangs
  have next := (hung.listed_root bound).row_below inRow here inLower
  rw [hung.top_rows _ _ next, hung.top_rows _ _ inRow, Nat.add_assoc]

omit bound in
theorem Hung.mem_of_tight {id : Nat} (member : id ∈ (RoseTree.node root trees).values)
    (tight : Tight children depth id child) : child ∈ valuesAll trees :=
  (hung.adopted_iff_mem child).mp (hung.top_closed found id member child tight.1 tight.2)

/-- A node hangs below the first one that it can hang below. -/
theorem Hung.idxOf_le {id other : Nat} (hangs : child ∈ list after.below id)
    (member : other ∈ (RoseTree.node root trees).values)
    (tight : Tight children depth other child) :
    (RoseTree.node root trees).values.idxOf id ≤ (RoseTree.node root trees).values.idxOf other := by
  have come := hung.top_first_come found (Hanging.initial_below bound)
  obtain taken | ⟨first, _, before, hangsFirst⟩ := come.exists_before member tight
  · rw [Hanging.initial, Array.getElem?_replicate] at taken
    split at taken <;> cases taken
  · rwa [hung.sole_hangs bound hangs hangsFirst]

theorem Hung.mem_values_iff (id : Nat) : id ∈ (RoseTree.node root trees).values ↔
    ReflTransGen (Tight children depth) root id := by
  constructor
  · exact (hung.listed_root bound).reaches
      (fun _ _ _ hangs => hung.tight_of_hangs found bound hangs) id
  · intro reaches
    induction reaches with
    | refl => exact List.mem_cons_self
    | tail _ tight inductionHypothesis =>
      exact List.mem_cons_of_mem _ (hung.mem_of_tight found inductionHypothesis tight)

theorem Hung.hangs_iff_first {id : Nat} (member : id ∈ (RoseTree.node root trees).values) :
    child ∈ list after.below id ↔ Tight children depth id child ∧
      ∀ other ∈ (RoseTree.node root trees).values, Tight children depth other child →
        (RoseTree.node root trees).values.idxOf id ≤
          (RoseTree.node root trees).values.idxOf other := by
  constructor
  · intro hangs
    exact ⟨hung.tight_of_hangs found bound hangs,
      fun other inTree tight => hung.idxOf_le found bound hangs inTree tight⟩
  · rintro ⟨tight, first⟩
    obtain ⟨upper, hangs⟩ := (hung.hangs_iff bound).mpr (hung.mem_of_tight found member tight)
    have inTree := hung.mem_of_hangs hangs
    have before := first upper inTree (hung.tight_of_hangs found bound hangs)
    have after := hung.idxOf_le found bound hangs member tight
    rwa [← (List.idxOf_inj inTree).mp (Nat.le_antisymm after before)]

theorem Hung.selected : Selected children depth root after.below (.node root trees) where
  top := rfl
  listed := hung.listed_root bound
  distinct := hung.top_distinct
  size := hung.size_after
  root_free id hangs := hung.top_outside ((hung.hangs_iff bound).mp ⟨id, hangs⟩)
  sole _ _ _ hangsFirst hangsSecond := hung.sole_hangs bound hangsFirst hangsSecond
  mem_iff := hung.mem_values_iff found bound
  outside _ inLists apart := hung.getElem?_outside inLists apart
  chosen _ member := hung.chosen_list found bound member
  mem_below_iff _ member _ := hung.hangs_iff_first found bound member

end Walk

/-! ### Depths as machine words -/

/-- What is one step deeper matters for the depths that are given only. -/
theorem adopt?_congr {deeper other : Nat → Nat}
    (same : ∀ level ∈ depth, deeper level = other level) (frames : List Frame)
    (adopted : Array Bool) (below : Array (List Nat)) :
    adopt? deeper children depth frames adopted below =
      adopt? other children depth frames adopted below := by
  have known {node level : Nat} (found : depth[node]? = some level) : deeper level = other level :=
    same level (Array.mem_of_getElem? found)
  -- The two walks take the same branch at every step.
  fun_induction adopt? deeper children depth frames adopted below <;> rw [adopt?] <;> grind

theorem nextWord_of_lt {word : Nat} (less : word + 1 < wordCount) : nextWord word = word + 1 :=
  Nat.mod_eq_of_lt less

/-- As long as no depth is the last machine word, depths are counted as numbers are. -/
theorem selectBelow?_eq (words : ∀ level ∈ depth, level + 1 < wordCount) (root : Nat)
    (children : Array (List Nat)) :
    selectBelow? root children depth = selectBelowBy? (· + 1) root children depth := by
  rw [selectBelow?, selectBelowBy?, selectBelowBy?]
  refine Option.bind_congr fun first _ => ?_
  exact adopt?_congr (fun level member => nextWord_of_lt (words level member)) _ _ _

/-- Nothing is selected from a root that is no node. -/
theorem selectBelow?_eq_none (outside : children.size ≤ root) (depth : Array Nat) :
    selectBelow? root children depth = none := by
  rw [selectBelow?, selectBelowBy?, Array.getElem?_eq_none outside]
  rfl

/-- From every node as the root, whatever the lists of children and the depths are, a tree is
selected, if none of the depths is the last machine word. -/
theorem selectBelow?_selected (sizes : depth.size = children.size)
    (inLists : ∀ nodes ∈ children, ∀ child ∈ nodes, child < children.size)
    (bound : root < children.size) (words : ∀ level ∈ depth, level + 1 < wordCount) :
    ∃ below tree, selectBelow? root children depth = some below ∧
      Selected children depth root below tree := by
  obtain ⟨nodes, after, trees, found, computed, hung⟩ := selectBelowBy?_hung sizes
    (fun _ child ⟨_, here, member⟩ => inLists _ (Array.mem_of_getElem? here) child member) bound
  exact ⟨after.below, .node root trees, (selectBelow?_eq words root children).trans computed,
    hung.selected found bound⟩

/-- Lists of children with circles, one of them from a node to itself, and with a child that is
repeated. The last node cannot be reached. -/
def circular : Array (List Nat) := #[[0, 2, 1, 2], [3, 0], [1, 3, 3], [3, 2], [3]]

theorem selectBelow?_selected_circular :
    #[2, 3, 3, 4, 3].size = circular.size ∧
    (∀ nodes ∈ circular, ∀ child ∈ nodes, child < circular.size) ∧ 0 < circular.size ∧
    (∀ level ∈ #[2, 3, 3, 4, 3], level + 1 < wordCount) ∧
    selectBelow? 0 circular #[2, 3, 3, 4, 3] = some #[[2, 1], [], [3], [], []] ∧
    ∃ tree, Selected circular #[2, 3, 3, 4, 3] 0 #[[2, 1], [], [3], [], []] tree := by
  have inLists : ∀ nodes ∈ circular, ∀ child ∈ nodes, child < circular.size := by decide
  have found : selectBelow? 0 circular #[2, 3, 3, 4, 3] = some #[[2, 1], [], [3], [], []] := by cbv
  have sizes : #[2, 3, 3, 4, 3].size = circular.size := rfl
  have bound : 0 < circular.size := by decide
  have words : ∀ level ∈ #[2, 3, 3, 4, 3], level + 1 < wordCount := by decide
  obtain ⟨below, tree, computed, selected⟩ := selectBelow?_selected sizes inLists bound words
  obtain rfl : below = #[[2, 1], [], [3], [], []] := Option.some.inj (computed.symm.trans found)
  exact ⟨sizes, inLists, bound, words, found, tree, selected⟩

/-- Not all depths lead to such a tree: below a node at the depth of the last machine word hangs a
child at depth zero, and the step between them is not one row down. -/
theorem exists_selection_from_last_word :
    ¬ ∀ (root : Nat) (children : Array (List Nat)) (depth : Array Nat),
      depth.size = children.size →
      (∀ nodes ∈ children, ∀ child ∈ nodes, child < children.size) → root < children.size →
      (∀ level ∈ depth, level < wordCount) →
      ∃ below tree, selectBelow? root children depth = some below ∧
        Selected children depth root below tree := by
  intro every
  have found : selectBelow? 0 #[[1], []] #[18446744073709551615, 0] = some #[[1], []] := by cbv
  obtain ⟨below, tree, computed, selected⟩ := every 0 #[[1], []] #[18446744073709551615, 0] rfl
    (by decide) (by decide) (by decide)
  obtain rfl : below = #[[1], []] := Option.some.inj (computed.symm.trans found)
  have root : 0 ∈ tree.values := (selected.mem_iff 0).mpr .refl
  obtain ⟨⟨_, directly⟩, _⟩ := (selected.mem_below_iff 0 root 1).mp (by decide)
  exact absurd directly (by decide)

end ExprDiagram
